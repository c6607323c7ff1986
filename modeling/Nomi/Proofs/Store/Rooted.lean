import Nomi.Proofs.Store.Alike
import Nomi.Proofs.Store.Every
import Nomi.Proofs.Store.Laws

/-!
# The tree of scopes

Scopes and values refer to each other in circles: a scope may hold a function that was
declared in it.  What is ordered are the parents alone.  Every scope but the global one
has a parent that is older, so that a search along the parents ends at the global scope.
-/

namespace Nomi

namespace Value

variable {size larger : Nat} {value : Value}

/-- Whether the functions in a value, at any depth, are of scopes that exist when there are
so many. -/
def Housed (size : Nat) (value : Value) : Prop :=
  ∀ home ∈ value.homes, home < size

theorem Housed.mono (h : value.Housed size) (hsize : size ≤ larger) : value.Housed larger :=
  fun home hmem => Nat.lt_of_lt_of_le (h home hmem) hsize

theorem housed_of_homeless (h : value.homes = []) : value.Housed size := by
  intro home hmem
  rw [h] at hmem
  contradiction

theorem mem_homesOfAll {values : List Value} {home : ScopeId} :
    home ∈ homesOfAll values ↔ ∃ value ∈ values, home ∈ value.homes := by
  induction values with
  | nil => simp [homesOfAll]
  | cons value rest ih => simp [homesOfAll, ih]

theorem mem_homesOfFields {fields : List (String × Value)} {home : ScopeId} :
    home ∈ homesOfFields fields ↔ ∃ entry ∈ fields, home ∈ entry.2.homes := by
  induction fields with
  | nil => simp [homesOfFields]
  | cons entry rest ih =>
      obtain ⟨name, value⟩ := entry
      simp [homesOfFields, ih]

theorem housed_array_iff {elements : List Value} :
    (array elements).Housed size ↔ ∀ value ∈ elements, value.Housed size := by
  constructor
  · intro h value hvalue home hmem
    exact h home (mem_homesOfAll.2 ⟨value, hvalue, hmem⟩)
  · intro h home hmem
    obtain ⟨value, hvalue, hhome⟩ := mem_homesOfAll.1 hmem
    exact h value hvalue home hhome

theorem housed_object_iff {fields : Fields Value} :
    (object fields).Housed size ↔ ∀ entry ∈ fields, entry.2.Housed size := by
  constructor
  · intro h entry hentry home hmem
    exact h home (mem_homesOfFields.2 ⟨entry, hentry, hmem⟩)
  · intro h home hmem
    obtain ⟨entry, hentry, hhome⟩ := mem_homesOfFields.1 hmem
    exact h entry hentry home hhome

theorem housed_function {parameters : List String} {body : List Node} {home : ScopeId}
    (h : home < size) : (function name parameters body home).Housed size :=
  fun _ hmem => List.mem_singleton.1 hmem ▸ h

end Value

/-- Whether a scope of the given number is the global scope without a parent, or another one
with an older parent. -/
def Scope.Descends (id : ScopeId) (scope : Scope) : Prop :=
  match scope.parent with
  | none => id = Store.globalId
  | some parent => parent < id

namespace Store

/-- Whether the scopes are a tree that grows from the global scope, and all functions in
their variables are of scopes that exist. -/
structure Rooted (store : Store) : Prop where
  global : globalId < store.size
  descends : ∀ id scope, store.scope? id = some scope → scope.Descends id
  values : store.Every (Value.Housed store.size)

variable {store after : Store} {id parent : ScopeId} {name : String} {value : Value}
  {constant : Bool}

theorem rooted_initial : initial.Rooted where
  global := by decide
  descends := by
    intro id scope hscope
    rw [scope?_initial] at hscope
    split at hscope
    · next hid =>
        cases hscope
        exact hid
    · contradiction
  values := by
    have hnone : ∀ entry ∈ predeclared, entry.2.homes = [] := by decide
    exact every_initial fun entry hentry => Value.housed_of_homeless (hnone entry hentry)

theorem Rooted.create (h : store.Rooted) (hparent : parent < store.size) :
    (store.create (some parent)).Rooted where
  global := by
    rw [size_create]
    exact Nat.lt_succ_of_lt h.global
  descends := by
    intro id scope hscope
    rw [scope?_create] at hscope
    split at hscope
    · next hid =>
        cases hscope
        exact hid ▸ hparent
    · exact h.descends id scope hscope
  values := by
    rw [size_create]
    refine Every.create (fun id scope hscope entry hentry => ?_) (some parent)
    exact (h.values id scope hscope entry hentry).mono (Nat.le_succ _)

/-- A change of one scope that keeps its parent and writes values that are housed. -/
theorem Rooted.update (h : store.Rooted) (id : ScopeId) {change : Scope → Scope}
    (hparent : ∀ scope, (change scope).parent = scope.parent)
    (hvalues : ∀ scope, scope.Every (Value.Housed store.size) →
      (change scope).Every (Value.Housed store.size)) : (store.update id change).Rooted where
  global := by
    rw [size_update]
    exact h.global
  descends := by
    intro other scope hscope
    rw [scope?_update] at hscope
    split at hscope
    · obtain ⟨before, hbefore, rfl⟩ := Option.map_eq_some_iff.1 hscope
      rw [Scope.Descends, hparent]
      exact h.descends other before hbefore
    · exact h.descends other scope hscope
  values := by
    rw [size_update]
    exact h.values.update id hvalues

theorem Rooted.set (h : store.Rooted) (id : ScopeId) (name : String)
    (hvalue : value.Housed store.size) : (store.update id (·.set name value)).Rooted :=
  h.update id (fun _ => rfl) fun _ hscope => hscope.set name hvalue

theorem Rooted.declare (h : store.Rooted) (hvalue : value.Housed store.size)
    (hafter : store.declare id name value constant = .ok after) : after.Rooted := by
  obtain ⟨_, rfl⟩ := declare_ok hafter
  exact h.update id (fun _ => rfl) fun _ hscope => hscope.set name hvalue

theorem Rooted.assign (h : store.Rooted) (hvalue : value.Housed store.size)
    (hafter : store.assign id name value = .ok after) : after.Rooted := by
  obtain ⟨owner, _, _, rfl⟩ := assign_ok hafter
  exact h.set owner name hvalue

theorem Rooted.overwrite (h : store.Rooted) (id : ScopeId) (name : String)
    (hvalue : value.Housed store.size) : (store.overwrite id name value).Rooted := by
  rcases overwrite_cases store id name value with hsame | ⟨owner, _, _, hchanged⟩
  · rwa [hsame]
  · rw [hchanged]
    exact h.set owner name hvalue

/-! ## Chains and searches -/

def outer? (store : Store) (id : ScopeId) : Option ScopeId :=
  (store.scope? id).bind (·.parent)

/-- A search for the scope that binds a name, from a scope outwards for as long as there are
parents.  It is given a number of steps, and gives nothing if these do not suffice. -/
def search (store : Store) (name : String) : Nat → ScopeId → Option (Option ScopeId)
  | 0, _ => none
  | steps + 1, id =>
      if store.binds id name then some (some id)
      else
        match store.outer? id with
        | some parent => store.search name steps parent
        | none => some none

theorem Rooted.outer?_lt (h : store.Rooted) (houter : store.outer? id = some parent) :
    parent < id := by
  obtain ⟨scope, hscope, hparent⟩ := Option.bind_eq_some_iff.1 houter
  have hdescends := h.descends id scope hscope
  rwa [Scope.Descends, hparent] at hdescends

theorem Rooted.ordered (h : store.Rooted) : store.Ordered := by
  intro id scope parent hscope hparent
  exact h.outer?_lt (Option.bind_eq_some_iff.2 ⟨scope, hscope, hparent⟩)

/-- A chain goes on to the parent, if there is one. -/
theorem Rooted.chain_eq (h : store.Rooted) (id : ScopeId) :
    store.chain id = id :: ((store.outer? id).map store.chain).getD [] := by
  unfold outer?
  cases hscope : store.scope? id with
  | none => exact chain_of_outermost (by simp [parent?, hscope])
  | some scope => exact h.ordered.chain_eq hscope

theorem Rooted.outer?_eq_none_iff (h : store.Rooted) (hid : id < store.size) :
    store.outer? id = none ↔ id = globalId := by
  obtain ⟨scope, hscope⟩ : ∃ scope, store.scope? id = some scope :=
    ⟨_, Array.getElem?_eq_getElem hid⟩
  have hdescends := h.descends id scope hscope
  rw [Scope.Descends] at hdescends
  rw [outer?, hscope, Option.bind_some]
  cases hparent : scope.parent with
  | none => simpa [hparent] using hdescends
  | some parent =>
      rw [hparent] at hdescends
      have hpositive : id ≠ globalId := Nat.ne_of_gt (Nat.lt_of_le_of_lt (Nat.zero_le _) hdescends)
      simpa using hpositive

/-- Every chain ends at the global scope. -/
theorem Rooted.getLast?_chain (h : store.Rooted) (hid : id < store.size) :
    (store.chain id).getLast? = some globalId := by
  induction id using Nat.strongRecOn with
  | ind id ih =>
      rw [h.chain_eq id]
      cases houter : store.outer? id with
      | none =>
          rw [(h.outer?_eq_none_iff hid).1 houter]
          rfl
      | some parent =>
          have holder := h.outer?_lt houter
          have hlast := ih parent holder (Nat.lt_trans holder hid)
          rw [Option.map_some, Option.getD_some, List.getLast?_cons, hlast]
          rfl

/-- A chain is no longer than there are scopes up to its first one. -/
theorem Rooted.length_chain_le (h : store.Rooted) (id : ScopeId) :
    (store.chain id).length ≤ id + 1 := by
  induction id using Nat.strongRecOn with
  | ind id ih =>
      rw [h.chain_eq id]
      cases houter : store.outer? id with
      | none => simp
      | some parent =>
          have holder := h.outer?_lt houter
          rw [Option.map_some, Option.getD_some, List.length_cons]
          exact Nat.succ_le_succ (Nat.le_trans (ih parent holder) holder)

/-- A search along the parents needs one step for each scope up to its first one, and finds
the owner. -/
theorem Rooted.search_eq (h : store.Rooted) (name : String) {steps : Nat} (hsteps : id < steps) :
    store.search name steps id = some (store.owner? id name) := by
  induction steps generalizing id with
  | zero => contradiction
  | succ steps ih =>
      rw [search, owner?, h.chain_eq id]
      cases hbinds : store.binds id name with
      | true => simp [hbinds]
      | false =>
          cases houter : store.outer? id with
          | none => simp [hbinds]
          | some parent =>
              have holder := h.outer?_lt houter
              have hrest := ih (Nat.lt_of_lt_of_le holder (Nat.le_of_lt_succ hsteps))
              simp [hbinds, hrest, owner?]

/-- What is known of the way from a scope outwards. -/
structure Outwards (store : Store) (id : ScopeId) : Prop where
  chain : store.chain id = id :: ((store.outer? id).map store.chain).getD []
  last : (store.chain id).getLast? = some globalId
  length : (store.chain id).length ≤ store.size
  search : ∀ name steps, store.size ≤ steps →
    store.search name steps id = some (store.owner? id name)
  found : ∀ name owner, store.owner? id name = some owner ↔ store.Nearest id owner name
  missed : ∀ name, store.owner? id name = none ↔
    ∀ scope ∈ store.chain id, store.binds scope name = false

theorem Rooted.outwards (h : store.Rooted) (hid : id < store.size) : store.Outwards id where
  chain := h.chain_eq id
  last := h.getLast?_chain hid
  length := Nat.le_trans (h.length_chain_le id) hid
  search name _ hsteps := h.search_eq name (Nat.lt_of_lt_of_le hid hsteps)
  found _ _ := owner?_eq_some_iff
  missed _ := owner?_eq_none_iff

end Store

end Nomi
