import Nomi.Eval.World
import Nomi.Proofs.Store.Growth

/-!
# The laws of the store

Which operation is refused, and what each one changes for a reader in any other
scope.  A reader sees the nearest binding of a name on its chain, so a change of
one scope shows from exactly those scopes whose chain comes to it before it comes
to another binding of the name.
-/

namespace Nomi.Store

/-- The stores that come from no scopes by creation, declaration and assignment,
each at a scope that exists. -/
inductive Built : Store → Prop
  | empty : Built .empty
  | create {store : Store} {parent : Option ScopeId} (before : Built store)
      (there : ∀ id, parent = some id → id < store.size) : Built (store.create parent)
  | declare {store after : Store} {id : ScopeId} {name : String} {value : Value}
      {constant : Bool} (before : Built store) (there : id < store.size)
      (declared : store.declare id name value constant = .ok after) : Built after
  | assign {store after : Store} {id : ScopeId} {name : String} {value : Value}
      (before : Built store) (assigned : store.assign id name value = .ok after) : Built after

/-- Whether a scope is on the chain of another and no scope before it binds a
name. -/
def Exposes (store : Store) (id scope : ScopeId) (name : String) : Prop :=
  ∃ nearer farther, store.chain id = nearer ++ scope :: farther ∧
    ∀ other ∈ nearer, store.binds other name = false

def Nearest (store : Store) (id owner : ScopeId) (name : String) : Prop :=
  store.Exposes id owner name ∧ store.binds owner name = true

/-- What holds of a store's operations. -/
structure Lawful (store : Store) : Prop where
  /-- A chain goes from a scope to its parent. -/
  chain : ∀ id scope, store.scope? id = some scope →
    store.chain id = id :: (scope.parent.map store.chain).getD []
  declare_refused : ∀ id name value constant,
    (∃ error, store.declare id name value constant = .error error) ↔
      store.binds id name = true
  assign_refused : ∀ id name value,
    (∃ error, store.assign id name value = .error error) ↔
      (∀ scope ∈ store.chain id, store.binds scope name = false) ∨
        ∃ owner, store.Nearest id owner name ∧ store.holdsConstant owner name = true
  lookup_refused : ∀ id name,
    (∃ error, store.lookup id name = .error error) ↔
      ∀ scope ∈ store.chain id, store.binds scope name = false
  /-- What is refused leaves the world, and with it every scope, as it was. -/
  refused : ∀ (world next : World) failure, world.store = store → ∀ id name value constant,
    (Eval.changeStore (·.declare id name value constant) world = .error failure next →
      next = world) ∧
    (Eval.changeStore (·.assign id name value) world = .error failure next → next = world) ∧
    (Eval.ofStore (·.lookup id name) world = .error failure next → next = world)
  assigned : ∀ id name value after, store.assign id name value = .ok after →
    ∃ owner, store.Nearest id owner name ∧ ∀ other read,
      (read = name ∧ store.Nearest other owner name → after.lookup other read = .ok value) ∧
      (¬(read = name ∧ store.Nearest other owner name) →
        after.lookup other read = store.lookup other read) ∧
      after.isConstant other read = store.isConstant other read
  declared : ∀ id name value constant after, id < store.size →
    store.declare id name value constant = .ok after → ∀ other read,
      (read = name ∧ store.Exposes other id name →
        after.lookup other read = .ok value ∧ after.isConstant other read = .ok constant) ∧
      (¬(read = name ∧ store.Exposes other id name) →
        after.lookup other read = store.lookup other read ∧
          after.isConstant other read = store.isConstant other read)

variable {store after : Store} {id other owner : ScopeId} {name read : String} {value : Value}
  {constant : Bool}

theorem chain_decreases (store : Store) (id : ScopeId) :
    (store.chain id).Pairwise (fun nearer farther => farther < nearer) := by
  induction id using Nat.strongRecOn with
  | ind id ih =>
      cases hparent : store.parent? id with
      | none =>
          rw [chain_of_outermost hparent]
          exact List.pairwise_singleton _ _
      | some parent =>
          have hlt := parent?_lt hparent
          rw [chain_of_parent hparent]
          apply List.pairwise_cons.2
          refine ⟨?_, ih parent hlt⟩
          intro scope hscope
          exact Nat.lt_of_le_of_lt (le_of_mem_chain hscope) hlt

theorem chain_congr (h : ∀ id, after.parent? id = store.parent? id) (id : ScopeId) :
    after.chain id = store.chain id := by
  induction id using Nat.strongRecOn with
  | ind id ih =>
      have hsame := h id
      cases hparent : store.parent? id with
      | none =>
          rw [hparent] at hsame
          rw [chain_of_outermost hsame, chain_of_outermost hparent]
      | some parent =>
          rw [hparent] at hsame
          rw [chain_of_parent hsame, chain_of_parent hparent, ih parent (parent?_lt hparent)]

theorem owner?_eq_some_iff : store.owner? id name = some owner ↔ store.Nearest id owner name := by
  unfold owner? Nearest Exposes
  rw [List.find?_eq_some_iff_append]
  constructor
  · rintro ⟨hbinds, nearer, farther, hchain, hnearer⟩
    exact ⟨⟨nearer, farther, hchain, fun scope hscope => by simpa using hnearer scope hscope⟩,
      hbinds⟩
  · rintro ⟨⟨nearer, farther, hchain, hnearer⟩, hbinds⟩
    exact ⟨hbinds, nearer, farther, hchain, fun scope hscope => by simp [hnearer scope hscope]⟩

theorem owner?_eq_none_iff :
    store.owner? id name = none ↔ ∀ scope ∈ store.chain id, store.binds scope name = false := by
  simp [owner?]

/-- All scopes that come before an unbound one may be passed to it. -/
theorem exposes_of_mem {scopes farther : List ScopeId} (hchain : store.chain id = scopes ++ farther)
    (hunbound : ∀ scope ∈ scopes, store.binds scope name = false) (hmem : owner ∈ scopes) :
    store.Exposes id owner name := by
  obtain ⟨nearer, between, rfl⟩ := List.append_of_mem hmem
  refine ⟨nearer, between ++ farther, ?_, ?_⟩
  · rw [hchain, List.append_assoc, List.cons_append]
  · intro scope hscope
    exact hunbound scope (List.mem_append_left _ hscope)

/-- What is seen of a name depends on its owner and on what the owner holds. -/
theorem lookup_of_owner (howner : store.owner? id name = some owner)
    (hvalue : store.value? owner name = some value) : store.lookup id name = .ok value := by
  unfold lookup
  rw [resolve_eq, howner]
  simp [bind, Except.bind, hvalue]

theorem isConstant_of_owner (howner : store.owner? id name = some owner) :
    store.isConstant id name = .ok (store.holdsConstant owner name) := by
  unfold isConstant
  rw [resolve_eq, howner]
  rfl

theorem lookup_congr (howner : after.owner? id name = store.owner? id name)
    (hvalue : ∀ owner, store.owner? id name = some owner →
      after.value? owner name = store.value? owner name) :
    after.lookup id name = store.lookup id name := by
  unfold lookup
  rw [resolve_eq, resolve_eq, howner]
  cases hfound : store.owner? id name with
  | none => rfl
  | some owner => simp [bind, Except.bind, hvalue owner hfound]

theorem isConstant_congr (howner : after.owner? id name = store.owner? id name)
    (hconstant : ∀ owner, store.owner? id name = some owner →
      after.holdsConstant owner name = store.holdsConstant owner name) :
    after.isConstant id name = store.isConstant id name := by
  unfold isConstant
  rw [resolve_eq, resolve_eq, howner]
  cases hfound : store.owner? id name with
  | none => rfl
  | some owner => simp [bind, Except.bind, hconstant owner hfound]

theorem declare_refused_iff :
    (∃ error, store.declare id name value constant = .error error) ↔
      store.binds id name = true := by
  unfold declare
  by_cases hbinds : store.binds id name = true
  · simp [hbinds]
  · simp [hbinds]

theorem lookup_refused_iff :
    (∃ error, store.lookup id name = .error error) ↔
      ∀ scope ∈ store.chain id, store.binds scope name = false := by
  rw [← owner?_eq_none_iff]
  constructor
  · rintro ⟨error, herror⟩
    rcases lookup_cases store id name with hrefused | ⟨owner, value, _, _, hfound⟩
    · cases howner : store.owner? id name with
      | none => rfl
      | some owner =>
          obtain ⟨value, hvalue⟩ : ∃ value, store.value? owner name = some value := by
            apply Option.isSome_iff_exists.1
            rw [isSome_value?, binds_owner howner]
          rw [lookup_of_owner howner hvalue] at herror
          contradiction
    · rw [hfound] at herror
      contradiction
  · intro hnone
    refine ⟨.unresolved name, ?_⟩
    unfold lookup
    rw [resolve_eq, hnone]
    rfl

theorem assign_refused_iff :
    (∃ error, store.assign id name value = .error error) ↔
      (∀ scope ∈ store.chain id, store.binds scope name = false) ∨
        ∃ owner, store.Nearest id owner name ∧ store.holdsConstant owner name = true := by
  simp only [← owner?_eq_none_iff, ← owner?_eq_some_iff]
  unfold assign
  rw [resolve_eq]
  cases howner : store.owner? id name with
  | none => simp [bind, Except.bind]
  | some owner =>
      by_cases hconstant : store.holdsConstant owner name = true
      · simp [bind, Except.bind, hconstant]
      · simp [bind, Except.bind, hconstant]

/-! ## A change of one scope -/

/-- A change that keeps parents keeps every chain. -/
theorem chain_update (change : Scope → Scope)
    (h : ∀ scope, (change scope).parent = scope.parent) (id other : ScopeId) :
    (store.update id change).chain other = store.chain other := by
  apply chain_congr
  intro scope
  unfold parent?
  rw [scope?_update]
  split
  · cases store.scope? scope with
    | none => rfl
    | some found => simp [h]
  · rfl

theorem binds_eq (store : Store) (id : ScopeId) (name : String) :
    store.binds id name = (store.value? id name).isSome :=
  (isSome_value? store id name).symm

theorem lt_size_of_binds (h : store.binds id name = true) : id < store.size := by
  apply Nat.lt_of_not_le
  intro hsize
  rw [binds, scope?_of_size_le hsize] at h
  contradiction

/-- Values change in one place only. -/
theorem value?_update {change : Scope → Scope} (hthere : id < store.size)
    (h : ∀ scope other, (change scope).value? other =
      if other = name then some value else scope.value? other) :
    (store.update id change).value? other read =
      if other = id ∧ read = name then some value else store.value? other read := by
  unfold value?
  rw [scope?_update]
  by_cases hother : id = other
  · subst hother
    obtain ⟨scope, hscope⟩ : ∃ scope, store.scope? id = some scope :=
      ⟨_, Array.getElem?_eq_getElem hthere⟩
    simp [hscope, h]
  · rw [if_neg hother, if_neg (fun hboth => hother hboth.1.symm)]

theorem holdsConstant_update_set (store : Store) (id other : ScopeId) (name read : String)
    (value : Value) :
    (store.update id (·.set name value)).holdsConstant other read =
      store.holdsConstant other read := by
  unfold holdsConstant
  rw [scope?_update]
  split
  · cases store.scope? other with
    | none => rfl
    | some scope => rfl
  · rfl

/-- An assignment binds nothing anew. -/
theorem owner?_assigned (value : Value) (hbinds : store.binds owner name = true)
    (other : ScopeId) (read : String) :
    (store.update owner (·.set name value)).owner? other read = store.owner? other read := by
  have hsame : ∀ scope, (store.update owner (·.set name value)).binds scope read =
      store.binds scope read := by
    intro scope
    rw [binds_eq, binds_eq, value?_update (lt_size_of_binds hbinds)
      (fun found other => found.value?_set name other value)]
    split
    · next hplace =>
        rw [hplace.1, hplace.2, isSome_value?, hbinds]
        rfl
    · rfl
  unfold owner?
  rw [chain_update (·.set name value) (fun _ => rfl)]
  simp only [hsame]

theorem assigned_reads (h : store.assign id name value = .ok after) :
    ∃ owner, store.Nearest id owner name ∧ ∀ other read,
      (read = name ∧ store.Nearest other owner name → after.lookup other read = .ok value) ∧
      (¬(read = name ∧ store.Nearest other owner name) →
        after.lookup other read = store.lookup other read) ∧
      after.isConstant other read = store.isConstant other read := by
  obtain ⟨owner, howner, _, rfl⟩ := assign_ok h
  have hbinds := binds_owner howner
  have hvalue : ∀ scope read, (store.update owner (·.set name value)).value? scope read =
      if scope = owner ∧ read = name then some value else store.value? scope read := by
    intro scope read
    exact value?_update (lt_size_of_binds hbinds)
      (fun found other => found.value?_set name other value)
  refine ⟨owner, owner?_eq_some_iff.1 howner, ?_⟩
  intro other read
  have hsame := owner?_assigned value hbinds other read
  refine ⟨?_, ?_, ?_⟩
  · rintro ⟨rfl, hnearest⟩
    rw [owner?_eq_some_iff.2 hnearest] at hsame
    apply lookup_of_owner hsame
    rw [hvalue, if_pos ⟨rfl, rfl⟩]
  · intro helsewhere
    apply lookup_congr hsame
    intro found hfound
    rw [hvalue, if_neg]
    rintro ⟨rfl, rfl⟩
    exact helsewhere ⟨rfl, owner?_eq_some_iff.1 hfound⟩
  · apply isConstant_congr hsame
    intro found _
    exact holdsConstant_update_set store owner found name read value

/-! ## Declaration -/

/-- No scope stands before itself on a chain. -/
theorem not_mem_nearer {nearer farther : List ScopeId}
    (h : store.chain id = nearer ++ owner :: farther) : owner ∉ nearer := by
  intro hmem
  have hsorted := store.chain_decreases id
  rw [h, List.pairwise_append] at hsorted
  exact Nat.lt_irrefl owner (hsorted.2.2 owner hmem owner List.mem_cons_self)

theorem owner?_declared (change : Scope → Scope)
    (hparent : ∀ scope, (change scope).parent = scope.parent)
    (hbinds : ∀ scope, (store.update id change).binds scope name =
      (store.binds scope name || decide (scope = id)))
    (h : store.Exposes other id name) :
    (store.update id change).owner? other name = some id := by
  obtain ⟨nearer, farther, hchain, hnearer⟩ := h
  refine owner?_eq_some_iff.2 ⟨⟨nearer, farther, ?_, ?_⟩, ?_⟩
  · rw [chain_update change hparent, hchain]
  · intro scope hscope
    have hne : scope ≠ id := by
      rintro rfl
      exact not_mem_nearer hchain hscope
    rw [hbinds, hnearer scope hscope]
    simp [hne]
  · simp [hbinds]

theorem owner?_elsewhere (change : Scope → Scope)
    (hparent : ∀ scope, (change scope).parent = scope.parent)
    (hbinds : ∀ scope, (store.update id change).binds scope read =
      (store.binds scope read || decide (scope = id ∧ read = name)))
    (h : ¬(read = name ∧ store.Exposes other id name)) :
    (store.update id change).owner? other read = store.owner? other read := by
  -- a scope that is passed on the way to the old owner is still passed
  have hpassed : ∀ scopes farther, store.chain other = scopes ++ farther →
      (∀ scope ∈ scopes, store.binds scope read = false) →
      ∀ scope ∈ scopes, (store.update id change).binds scope read = false := by
    intro scopes farther hchain hunbound scope hscope
    have hne : ¬(scope = id ∧ read = name) := by
      rintro ⟨rfl, rfl⟩
      exact h ⟨rfl, exposes_of_mem hchain hunbound hscope⟩
    rw [hbinds, hunbound scope hscope]
    simp [hne]
  cases howner : store.owner? other read with
  | none =>
      have hunbound := owner?_eq_none_iff.1 howner
      rw [owner?_eq_none_iff, chain_update change hparent]
      exact hpassed _ [] (List.append_nil _).symm hunbound
  | some owner =>
      obtain ⟨⟨nearer, farther, hchain, hnearer⟩, howned⟩ := owner?_eq_some_iff.1 howner
      refine owner?_eq_some_iff.2 ⟨⟨nearer, farther, ?_, ?_⟩, ?_⟩
      · rw [chain_update change hparent, hchain]
      · exact hpassed nearer _ hchain hnearer
      · rw [hbinds, howned, Bool.true_or]

theorem value?_declared (name : String) (value : Value) (constant : Bool)
    (hthere : id < store.size) (other : ScopeId) (read : String) :
    (store.update id (·.add name value constant)).value? other read =
      if other = id ∧ read = name then some value else store.value? other read :=
  value?_update hthere (fun scope other => scope.value?_set name other value)

theorem binds_declared (name : String) (value : Value) (constant : Bool)
    (hthere : id < store.size) (other : ScopeId) (read : String) :
    (store.update id (·.add name value constant)).binds other read =
      (store.binds other read || decide (other = id ∧ read = name)) := by
  rw [binds_eq, binds_eq, value?_declared name value constant hthere]
  by_cases hplace : other = id ∧ read = name
  · simp [hplace]
  · simp [hplace]

theorem holdsConstant_declared (name : String) (value : Value) (constant : Bool)
    (hthere : id < store.size) (other : ScopeId) (read : String) :
    (store.update id (·.add name value constant)).holdsConstant other read =
      (store.holdsConstant other read || constant && decide (other = id ∧ read = name)) := by
  unfold holdsConstant
  rw [scope?_update]
  by_cases hother : id = other
  · subst hother
    obtain ⟨scope, hscope⟩ : ∃ scope, store.scope? id = some scope :=
      ⟨_, Array.getElem?_eq_getElem hthere⟩
    simp [hscope, Scope.isConstant_add]
  · have hne : ¬(other = id ∧ read = name) := fun hboth => hother hboth.1.symm
    simp [hother, hne]

/-- In a well formed store only what is bound is constant. -/
theorem WellFormed.holdsConstant_eq_false (h : store.WellFormed)
    (hbinds : store.binds id name = false) : store.holdsConstant id name = false := by
  unfold binds at hbinds
  unfold holdsConstant
  cases hscope : store.scope? id with
  | none => rfl
  | some scope =>
      rw [hscope, Option.any_some] at hbinds
      rw [Option.any_some]
      cases hconstant : scope.isConstant name with
      | false => rfl
      | true =>
          rw [h id scope hscope name hconstant] at hbinds
          contradiction

theorem declared_reads (hstore : store.WellFormed) (hthere : id < store.size)
    (h : store.declare id name value constant = .ok after) (other : ScopeId) (read : String) :
    (read = name ∧ store.Exposes other id name →
      after.lookup other read = .ok value ∧ after.isConstant other read = .ok constant) ∧
    (¬(read = name ∧ store.Exposes other id name) →
      after.lookup other read = store.lookup other read ∧
        after.isConstant other read = store.isConstant other read) := by
  obtain ⟨hfree, rfl⟩ := declare_ok h
  have hvalue := value?_declared name value constant hthere
  have hconstant := holdsConstant_declared name value constant hthere
  have hbinds := binds_declared name value constant hthere
  constructor
  · rintro ⟨rfl, hexposes⟩
    have howner := owner?_declared (·.add read value constant) (fun _ => rfl)
      (fun scope => by simpa using hbinds scope read) hexposes
    constructor
    · apply lookup_of_owner howner
      rw [hvalue, if_pos ⟨rfl, rfl⟩]
    · rw [isConstant_of_owner howner, hconstant, hstore.holdsConstant_eq_false hfree]
      simp
  · intro helsewhere
    have hsame := owner?_elsewhere (·.add name value constant) (fun _ => rfl)
      (fun scope => hbinds scope read) helsewhere
    have hplace : ∀ owner, store.owner? other read = some owner → ¬(owner = id ∧ read = name) := by
      rintro owner howner ⟨rfl, rfl⟩
      exact helsewhere ⟨rfl, (owner?_eq_some_iff.1 howner).1⟩
    constructor
    · apply lookup_congr hsame
      intro owner howner
      rw [hvalue, if_neg (hplace owner howner)]
    · apply isConstant_congr hsame
      intro owner howner
      rw [hconstant]
      simp [hplace owner howner]

/-! ## Stores that are built -/

def Ordered (store : Store) : Prop :=
  ∀ id scope parent, store.scope? id = some scope → scope.parent = some parent → parent < id

theorem ordered_update {change : Scope → Scope} (h : store.Ordered) (id : ScopeId)
    (hparent : ∀ scope, (change scope).parent = scope.parent) :
    (store.update id change).Ordered := by
  intro other scope parent hscope hfound
  rw [scope?_update] at hscope
  split at hscope
  · obtain ⟨before, hbefore, rfl⟩ := Option.map_eq_some_iff.1 hscope
    rw [hparent] at hfound
    exact h other before parent hbefore hfound
  · exact h other scope parent hscope hfound

theorem Built.ordered (h : store.Built) : store.Ordered := by
  induction h with
  | empty =>
      intro id scope parent hscope
      contradiction
  | @create store parent before there ih =>
      intro other scope found hscope hfound
      rw [scope?_create] at hscope
      split at hscope
      · next hother =>
          cases hscope
          rw [hother]
          exact there found hfound
      · exact ih other scope found hscope hfound
  | declare before there declared ih =>
      obtain ⟨_, rfl⟩ := declare_ok declared
      exact ordered_update ih _ (fun _ => rfl)
  | assign before assigned ih =>
      obtain ⟨owner, _, _, rfl⟩ := assign_ok assigned
      exact ordered_update ih _ (fun _ => rfl)

theorem Built.wellFormed (h : store.Built) : store.WellFormed := by
  induction h with
  | empty =>
      intro id scope hscope
      contradiction
  | @create store parent before there ih => exact (grows_create store parent ih).1
  | declare before there declared ih => exact (grows_declare declared ih).1
  | assign before assigned ih => exact (grows_assign assigned ih).1

theorem Ordered.chain_eq (h : store.Ordered) {scope : Scope}
    (hscope : store.scope? id = some scope) :
    store.chain id = id :: (scope.parent.map store.chain).getD [] := by
  cases hparent : scope.parent with
  | none => exact chain_of_outermost (by simp [parent?, hscope, hparent])
  | some parent =>
      have holder := h id scope parent hscope hparent
      exact chain_of_parent (by simp [parent?, hscope, hparent, holder])

theorem ext_scope? (h : ∀ id, after.scope? id = store.scope? id) : after = store := by
  obtain ⟨scopes⟩ := store
  obtain ⟨later⟩ := after
  exact congrArg Store.mk (Array.ext_getElem? h)

/-- Constants that a scope does not bind yet may be declared one after another. -/
theorem Built.declare_all (entries : Fields Value) (h : store.Built) (hthere : id < store.size)
    (hnodup : (entries.map (·.1)).Nodup)
    (hfree : ∀ entry ∈ entries, store.binds id entry.1 = false) :
    (store.update id fun scope =>
      entries.foldl (fun scope (name, value) => scope.add name value true) scope).Built := by
  induction entries generalizing store with
  | nil =>
      have hsame : (store.update id fun scope => scope) = store := by
        apply ext_scope?
        intro other
        rw [scope?_update]
        cases store.scope? other <;> simp
      simpa only [List.foldl_nil, hsame] using h
  | cons entry rest ih =>
      obtain ⟨name, value⟩ := entry
      have hunbound : store.binds id name = false := hfree _ List.mem_cons_self
      have hdeclared : store.declare id name value true =
          .ok (store.update id (·.add name value true)) := by
        simp [Store.declare, hunbound]
      have hfirst := h.declare hthere hdeclared
      obtain ⟨hnew, hrest⟩ := List.nodup_cons.1 hnodup
      have hlast := ih hfirst (by simpa using hthere) hrest (by
        intro entry hentry
        have hother : entry.1 ≠ name := by
          intro heq
          exact hnew (List.mem_map.2 ⟨entry, hentry, heq⟩)
        have hold := hfree entry (List.mem_cons_of_mem _ hentry)
        rw [binds_declared name value true hthere, hold]
        simp [hother])
      have hsame : ((store.update id (·.add name value true)).update id fun scope =>
          rest.foldl (fun scope (name, value) => scope.add name value true) scope) =
          store.update id fun scope =>
            ((name, value) :: rest).foldl (fun scope (name, value) => scope.add name value true)
              scope := by
        apply ext_scope?
        intro other
        simp only [scope?_update]
        split
        · rw [Option.map_map]
          rfl
        · rfl
      rwa [hsame] at hlast

/-- A global scope comes from an empty one by declarations. -/
theorem Built.createGlobal (h : store.Built) : store.createGlobal.Built := by
  have hempty : (store.create none).Built := h.create (by simp)
  have hdeclared := hempty.declare_all predeclared (by simp : store.size < _) (by decide) (by
    intro entry _
    simp [binds, scope?_create, Scope.binds, Scope.names, Scope.empty])
  have hsame : (store.create none).update store.size (fun scope =>
      predeclared.foldl (fun scope (name, value) => scope.add name value true) scope) =
      store.createGlobal := by
    apply ext_scope?
    intro other
    rw [scope?_update, scope?_create]
    simp only [Store.createGlobal, scope?, Array.getElem?_push, size]
    by_cases hother : other = store.scopes.size
    · simp [hother, globalScope]
    · simp [hother, Ne.symm hother]
  rwa [hsame] at hdeclared

theorem built_initial : initial.Built :=
  Built.empty.createGlobal

/-- However a store was built, its operations are refused and change what is read
exactly as the nearest bindings say. -/
theorem Built.lawful (h : store.Built) : store.Lawful where
  chain _ _ hscope := h.ordered.chain_eq hscope
  declare_refused _ _ _ _ := declare_refused_iff
  assign_refused _ _ _ := assign_refused_iff
  lookup_refused _ _ := lookup_refused_iff
  refused world next failure _ id name value constant := by
    refine ⟨Eval.changeStore_error, Eval.changeStore_error, ?_⟩
    intro hrefused
    unfold Eval.ofStore at hrefused
    split at hrefused
    · contradiction
    · cases hrefused
      rfl
  assigned _ _ _ _ hassigned := assigned_reads hassigned
  declared _ _ _ _ _ hthere hdeclared := declared_reads h.wellFormed hthere hdeclared

/-- Three scopes: a name is variable in one, constant in its child and not bound
in the third. -/
def shadowed : Store :=
  ⟨#[⟨none, [("x", .boolean true)], []⟩, ⟨some 0, [("x", .boolean false)], ["x"]⟩,
    .empty none]⟩

theorem lawful_shadowed : shadowed.Built ∧ shadowed.Lawful := by
  let scopes := ((empty.create none).create (some 0)).create none
  have hscopes : scopes.Built := by
    refine .create (.create (.create .empty ?_) ?_) ?_ <;> simp
  have houter : scopes.declare 0 "x" (.boolean true) false =
      .ok ⟨#[⟨none, [("x", .boolean true)], []⟩, .empty (some 0), .empty none]⟩ := rfl
  have hinner : Store.declare ⟨#[⟨none, [("x", .boolean true)], []⟩, .empty (some 0), .empty none]⟩
      1 "x" (.boolean false) true = .ok shadowed := rfl
  have hbuilt : shadowed.Built :=
    (hscopes.declare (by decide) houter).declare (by decide) hinner
  exact ⟨hbuilt, hbuilt.lawful⟩

end Nomi.Store
