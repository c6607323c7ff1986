import Nomi.Value.Basic

/-!
# The store of scopes

Scopes are numbered in the order of creation and never removed.  A scope has a
parent that was created before it, or none, and the names a program sees from a
scope are those bound on the way from it outwards.
-/

namespace Nomi

/-- The values of the names of one scope, in the order of declaration, and which
names may not be assigned. -/
structure Scope where
  parent : Option ScopeId
  values : Fields Value
  constants : List String
  deriving Inhabited, Repr

namespace Scope

def empty (parent : Option ScopeId) : Scope :=
  ⟨parent, [], []⟩

def value? (scope : Scope) (name : String) : Option Value :=
  scope.values.get? name

def names (scope : Scope) : List String :=
  scope.values.map (·.1)

def binds (scope : Scope) (name : String) : Bool :=
  scope.names.contains name

def isConstant (scope : Scope) (name : String) : Bool :=
  scope.constants.contains name

def set (scope : Scope) (name : String) (value : Value) : Scope :=
  { scope with values := scope.values.put name value }

/-- Gives a name a value and makes it constant if asked for. -/
def add (scope : Scope) (name : String) (value : Value) (constant : Bool) : Scope :=
  { scope.set name value with
    constants := if constant then scope.constants ++ [name] else scope.constants }

end Scope

structure Binding where
  name : String
  value : Value
  constant : Bool
  deriving Inhabited, Repr

def Scope.bindings (scope : Scope) : List Binding :=
  scope.values.map fun (name, value) => ⟨name, value, scope.isConstant name⟩

inductive ScopeError where
  | alreadyDeclared (name : String)
  | unresolved (name : String)
  | constant (name : String)
  /-- A name without a value in the scope that was found to bind it.  No store
  has one. -/
  | missing (name : String)
  deriving DecidableEq, Repr

def ScopeError.message : ScopeError → String
  | .alreadyDeclared name =>
      "Cannot declare variable " ++ name ++ ". As it already is defined."
  | .unresolved name => "Cannot resolve '" ++ name ++ "' as it does not exist."
  | .constant name =>
      "Cannot reassign to variable " ++ name ++ " as it was declared constant."
  | .missing name => "The scope that binds '" ++ name ++ "' has no value for it."

/-- All scopes, by number. -/
structure Store where
  scopes : Array Scope
  deriving Inhabited, Repr

namespace Store

def empty : Store :=
  ⟨#[]⟩

def size (store : Store) : Nat :=
  store.scopes.size

def create (store : Store) (parent : Option ScopeId) : Store :=
  ⟨store.scopes.push (.empty parent)⟩

def scope? (store : Store) (id : ScopeId) : Option Scope :=
  store.scopes[id]?

/-- The parent of a scope; a parent is always the older of the two. -/
def parent? (store : Store) (id : ScopeId) : Option ScopeId :=
  (store.scope? id).bind fun scope => scope.parent.filter (· < id)

/-- A scope and its parents, from the scope outwards. -/
def chain (store : Store) (id : ScopeId) : List ScopeId :=
  match h : store.parent? id with
  | some parent =>
      have : parent < id := by
        simp only [parent?, Option.bind_eq_some_iff, Option.filter_eq_some_iff,
          decide_eq_true_eq] at h
        obtain ⟨_, _, _, older⟩ := h
        exact older
      id :: store.chain parent
  | none => [id]
termination_by id

def binds (store : Store) (id : ScopeId) (name : String) : Bool :=
  (store.scope? id).any (·.binds name)

/-- The nearest scope of the chain that binds a name. -/
def owner? (store : Store) (id : ScopeId) (name : String) : Option ScopeId :=
  (store.chain id).find? (store.binds · name)

/-! ## Operations -/

def update (store : Store) (id : ScopeId) (change : Scope → Scope) : Store :=
  ⟨store.scopes.modify id change⟩

/-- Binds a name in a scope, which must not bind it yet. -/
def declare (store : Store) (id : ScopeId) (name : String) (value : Value) (constant : Bool) :
    Except ScopeError Store :=
  if store.binds id name then .error (.alreadyDeclared name)
  else .ok (store.update id (·.add name value constant))

def resolve (store : Store) (id : ScopeId) (name : String) : Except ScopeError ScopeId :=
  match store.owner? id name with
  | some owner => .ok owner
  | none => .error (.unresolved name)

def value? (store : Store) (id : ScopeId) (name : String) : Option Value :=
  (store.scope? id).bind (·.value? name)

def lookup (store : Store) (id : ScopeId) (name : String) : Except ScopeError Value := do
  let owner ← store.resolve id name
  match store.value? owner name with
  | some value => .ok value
  | none => .error (.missing name)

/-- Whether a name is constant in a scope itself. -/
def holdsConstant (store : Store) (id : ScopeId) (name : String) : Bool :=
  (store.scope? id).any (·.isConstant name)

def isConstant (store : Store) (id : ScopeId) (name : String) : Except ScopeError Bool := do
  let owner ← store.resolve id name
  return store.holdsConstant owner name

/-- Gives a name another value in the scope that it is bound in. -/
def assign (store : Store) (id : ScopeId) (name : String) (value : Value) :
    Except ScopeError Store := do
  let owner ← store.resolve id name
  if store.holdsConstant owner name then .error (.constant name)
  else .ok (store.update owner (·.set name value))

/-- Gives a name another value where it is bound and not constant.  Otherwise
nothing changes, and nothing is refused. -/
def overwrite (store : Store) (id : ScopeId) (name : String) (value : Value) : Store :=
  match store.owner? id name with
  | some owner =>
      if store.holdsConstant owner name then store else store.update owner (·.set name value)
  | none => store

@[simp] theorem size_create (store : Store) (parent : Option ScopeId) :
    (store.create parent).size = store.size + 1 := by
  simp [create, size]

@[simp] theorem size_update (store : Store) (id : ScopeId) (change : Scope → Scope) :
    (store.update id change).size = store.size := by
  simp [update, size]

theorem scope?_create (store : Store) (parent : Option ScopeId) (id : ScopeId) :
    (store.create parent).scope? id =
      if id = store.size then some (.empty parent) else store.scope? id := by
  simp only [create, scope?, size, Array.getElem?_push]
  rfl

theorem scope?_update (store : Store) (id other : ScopeId) (change : Scope → Scope) :
    (store.update id change).scope? other =
      if id = other then (store.scope? other).map change else store.scope? other := by
  simp only [update, scope?, Array.getElem?_modify]

theorem parent?_lt {store : Store} {id parent : ScopeId} (h : store.parent? id = some parent) :
    parent < id := by
  simp only [parent?, Option.bind_eq_some_iff, Option.filter_eq_some_iff,
    decide_eq_true_eq] at h
  obtain ⟨_, _, _, older⟩ := h
  exact older

theorem chain_of_parent {store : Store} {id parent : ScopeId}
    (h : store.parent? id = some parent) : store.chain id = id :: store.chain parent := by
  rw [chain]
  split <;> simp_all

theorem chain_of_outermost {store : Store} {id : ScopeId} (h : store.parent? id = none) :
    store.chain id = [id] := by
  rw [chain]
  split <;> simp_all

/-- Every scope of a chain was created no later than its first one. -/
theorem le_of_mem_chain {store : Store} {id other : ScopeId} (h : other ∈ store.chain id) :
    other ≤ id := by
  induction id using Nat.strongRecOn with
  | ind id ih =>
      cases hp : store.parent? id with
      | none =>
          rw [chain_of_outermost hp] at h
          exact Nat.le_of_eq (List.mem_singleton.1 h)
      | some parent =>
          have hlt := parent?_lt hp
          rw [chain_of_parent hp] at h
          rcases List.mem_cons.1 h with rfl | hmem
          · exact Nat.le_refl _
          · exact Nat.le_trans (ih parent hlt hmem) (Nat.le_of_lt hlt)

/-! ## The global scope -/

/-- What every program finds declared, all of it constant. -/
def predeclared : Fields Value :=
  [("true", .boolean true), ("false", .boolean false), ("null", .null),
    ("print", .builtin .print), ("time", .builtin .time)]

/-- The scope that binds what every program finds declared. -/
def globalScope : Scope :=
  predeclared.foldl (fun scope (name, value) => scope.add name value true) (.empty none)

def createGlobal (store : Store) : Store :=
  ⟨store.scopes.push globalScope⟩

def globalId : ScopeId :=
  0

/-- The store before a program runs: one global scope. -/
def initial : Store :=
  empty.createGlobal

/-- The bindings of a scope that were not there from the start. -/
def declared (store : Store) (id : ScopeId) : List Binding :=
  ((store.scope? id).map (·.bindings)).getD []
    |>.filter fun binding => !predeclared.any (·.1 == binding.name)

end Store

end Nomi
