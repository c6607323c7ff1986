import Mathlib.Data.List.Find
import Nomi.Proofs.Store.Alike

/-!
# Stores of two runs

Two stores are looked at through some of the scopes that they start with and through
all that are created later.  What is seen is alike in both, leads to nothing that is
not seen, and the operations on it give the same.  What is not seen stays as it was.
-/

namespace Nomi

theorem rel_cases {α β : Type} {related : α → β → Prop} {first : Option α} {second : Option β}
    (h : Option.Rel related first second) :
    (first = none ∧ second = none) ∨ ∃ a b, first = some a ∧ second = some b ∧ related a b := by
  cases h with
  | some hvalue => exact .inr ⟨_, _, rfl, rfl, hvalue⟩
  | none => exact .inl ⟨rfl, rfl⟩

namespace Scope

/-- Whether two scopes are alike and lead to seen scopes only. -/
structure Alike (places : Places) (seen : ScopeId → Prop) (first second : Scope) : Prop where
  parent : first.parent = second.parent
  outwards : ∀ id, first.parent = some id → seen id
  values : Fields.Alike (Value.Alike places seen) first.values second.values
  constants : first.constants = second.constants

variable {places : Places} {seen more : ScopeId → Prop} {first second : Scope}

theorem Alike.mono (h : Alike places seen first second) (hmore : ∀ id, seen id → more id) :
    Alike places more first second where
  parent := h.parent
  outwards := fun id hparent => hmore id (h.outwards id hparent)
  values := Fields.Alike.mono h.values fun _ _ => Value.Alike.mono hmore
  constants := h.constants

theorem Alike.binds (h : Alike places seen first second) (name : String) :
    first.binds name = second.binds name := by
  unfold Scope.binds Scope.names
  rw [Fields.Alike.names h.values]

theorem Alike.isConstant (h : Alike places seen first second) (name : String) :
    first.isConstant name = second.isConstant name := by
  unfold Scope.isConstant
  rw [h.constants]

theorem Alike.set (h : Alike places seen first second) (name : String) {a b : Value}
    (hvalue : Value.Alike places seen a b) :
    Alike places seen (first.set name a) (second.set name b) :=
  ⟨h.parent, h.outwards, Fields.Alike.put h.values name hvalue, h.constants⟩

theorem Alike.add (h : Alike places seen first second) (name : String) (constant : Bool)
    {a b : Value} (hvalue : Value.Alike places seen a b) :
    Alike places seen (first.add name a constant) (second.add name b constant) :=
  ⟨h.parent, h.outwards, Fields.Alike.put h.values name hvalue, by
    simp only [Scope.add, h.constants]⟩

theorem alike_empty {id : ScopeId} (hid : seen id) :
    Alike places seen (.empty (some id)) (.empty (some id)) where
  parent := rfl
  outwards := by
    rintro other ⟨⟩
    exact hid
  values := .nil
  constants := rfl

end Scope

/-- What two runs are compared by: which places correspond, the stores that the runs
start with, and which of their scopes are seen. -/
structure View where
  places : Places
  shown : ScopeId → Prop
  left : Store
  right : Store

namespace View

variable {view : View}

/-- Whether a scope is seen when there are so many: one that is shown, or one that is
new since the start. -/
def Sees (view : View) (size : Nat) (id : ScopeId) : Prop :=
  view.shown id ∨ view.left.size ≤ id ∧ id < size

theorem Sees.mono {size larger : Nat} {id : ScopeId} (h : view.Sees size id)
    (hsize : size ≤ larger) : view.Sees larger id :=
  h.imp_right fun hnew => ⟨hnew.1, Nat.lt_of_lt_of_le hnew.2 hsize⟩

abbrev Values (view : View) (size : Nat) : Value → Value → Prop :=
  Value.Alike view.places (view.Sees size)

abbrev Scopes (view : View) (size : Nat) : Scope → Scope → Prop :=
  Scope.Alike view.places (view.Sees size)

/-- Whether two stores are alike in what is seen and unchanged in what is not. -/
structure Stores (view : View) (first second : Store) : Prop where
  size : first.size = second.size
  grown : view.left.size ≤ first.size
  scopes : ∀ id, view.Sees first.size id →
    Option.Rel (view.Scopes first.size) (first.scope? id) (second.scope? id)
  hiddenLeft : ∀ id < view.left.size, ¬ view.shown id → first.scope? id = view.left.scope? id
  hiddenRight : ∀ id < view.left.size, ¬ view.shown id → second.scope? id = view.right.scope? id

variable {first second : Store} {id : ScopeId} {name : String}

/-- What is seen of one store, if it is there, is there in the other. -/
theorem Stores.scope_cases (h : view.Stores first second) (hid : view.Sees first.size id) :
    (first.scope? id = none ∧ second.scope? id = none) ∨
      ∃ a b, first.scope? id = some a ∧ second.scope? id = some b ∧ view.Scopes first.size a b :=
  rel_cases (h.scopes id hid)

/-! ## What is read -/

theorem Stores.parent? (h : view.Stores first second) (hid : view.Sees first.size id) :
    first.parent? id = second.parent? id ∧
      ∀ parent, first.parent? id = some parent → view.Sees first.size parent := by
  unfold Store.parent?
  rcases h.scope_cases hid with ⟨ha, hb⟩ | ⟨a, b, ha, hb, hscope⟩
  · simp [ha, hb]
  · rw [ha, hb, Option.bind_some, Option.bind_some, hscope.parent]
    refine ⟨rfl, fun parent hparent => hscope.outwards parent ?_⟩
    exact hscope.parent.trans (Option.filter_eq_some_iff.1 hparent).1

theorem Stores.chain (h : view.Stores first second) (hid : view.Sees first.size id) :
    first.chain id = second.chain id ∧ ∀ other ∈ first.chain id, view.Sees first.size other := by
  induction id using Nat.strongRecOn with
  | ind id ih =>
      have hparents := h.parent? hid
      cases hparent : first.parent? id with
      | none =>
          rw [hparent] at hparents
          rw [Store.chain_of_outermost hparent, Store.chain_of_outermost hparents.1.symm]
          exact ⟨rfl, fun other hmem => List.mem_singleton.1 hmem ▸ hid⟩
      | some parent =>
          rw [hparent] at hparents
          have houter := ih parent (Store.parent?_lt hparent) (hparents.2 parent rfl)
          rw [Store.chain_of_parent hparent, Store.chain_of_parent hparents.1.symm, houter.1]
          refine ⟨rfl, fun other hmem => ?_⟩
          rcases List.mem_cons.1 hmem with rfl | hmem
          · exact hid
          · exact houter.2 other (houter.1 ▸ hmem)

theorem Stores.binds (h : view.Stores first second) (hid : view.Sees first.size id)
    (name : String) : first.binds id name = second.binds id name := by
  unfold Store.binds
  rcases h.scope_cases hid with ⟨ha, hb⟩ | ⟨a, b, ha, hb, hscope⟩
  · rw [ha, hb]
  · rw [ha, hb, Option.any_some, Option.any_some, hscope.binds]

theorem Stores.holdsConstant (h : view.Stores first second) (hid : view.Sees first.size id)
    (name : String) : first.holdsConstant id name = second.holdsConstant id name := by
  unfold Store.holdsConstant
  rcases h.scope_cases hid with ⟨ha, hb⟩ | ⟨a, b, ha, hb, hscope⟩
  · rw [ha, hb]
  · rw [ha, hb, Option.any_some, Option.any_some, hscope.isConstant]

theorem Stores.value? (h : view.Stores first second) (hid : view.Sees first.size id)
    (name : String) :
    Option.Rel (view.Values first.size) (first.value? id name) (second.value? id name) := by
  unfold Store.value?
  rcases h.scope_cases hid with ⟨ha, hb⟩ | ⟨a, b, ha, hb, hscope⟩
  · rw [ha, hb]
    exact .none
  · rw [ha, hb, Option.bind_some, Option.bind_some]
    exact Fields.Alike.get? hscope.values name

theorem Stores.owner? (h : view.Stores first second) (hid : view.Sees first.size id)
    (name : String) :
    first.owner? id name = second.owner? id name ∧
      ∀ owner, first.owner? id name = some owner → view.Sees first.size owner := by
  have hchain := h.chain hid
  constructor
  · unfold Store.owner?
    rw [← hchain.1]
    exact List.find?_congr fun other hmem => h.binds (hchain.2 other hmem) name
  · exact fun owner howner => hchain.2 owner (List.mem_of_find?_eq_some howner)

/-- How two results are alike: with the same error, or with values that are
related. -/
inductive Results {ε α β : Type} (related : α → β → Prop) : Except ε α → Except ε β → Prop
  | ok {a : α} {b : β} (h : related a b) : Results related (.ok a) (.ok b)
  | error (error : ε) : Results related (.error error) (.error error)

theorem Stores.lookup (h : view.Stores first second) (hid : view.Sees first.size id)
    (name : String) :
    Results (view.Values first.size) (first.lookup id name) (second.lookup id name) := by
  have howners := h.owner? hid name
  unfold Store.lookup
  rw [Store.resolve_eq, Store.resolve_eq, ← howners.1]
  cases howner : first.owner? id name with
  | none => exact .error _
  | some owner =>
      simp only [bind, Except.bind]
      rcases rel_cases (h.value? (howners.2 owner howner) name) with
        ⟨ha, hb⟩ | ⟨a, b, ha, hb, hvalue⟩
      · rw [ha, hb]
        exact .error _
      · rw [ha, hb]
        exact .ok hvalue

/-! ## What is changed -/

/-- A change of a seen scope that makes alike scopes of alike ones. -/
theorem Stores.update (h : view.Stores first second) (hid : view.Sees first.size id)
    {change other : Scope → Scope}
    (hchange : ∀ a b, view.Scopes first.size a b → view.Scopes first.size (change a) (other b)) :
    view.Stores (first.update id change) (second.update id other) := by
  have hhidden : ∀ hidden < view.left.size, ¬ view.shown hidden → id ≠ hidden := by
    rintro hidden hold hshown rfl
    rcases hid with hseen | ⟨hnew, _⟩
    · exact hshown hseen
    · exact absurd hold (Nat.not_lt_of_le hnew)
  constructor
  · simpa using h.size
  · simpa using h.grown
  · intro seen hseen
    rw [Store.size_update] at hseen ⊢
    rw [Store.scope?_update, Store.scope?_update]
    have hscopes := h.scopes seen hseen
    by_cases heq : id = seen
    · rw [if_pos heq, if_pos heq]
      rcases h.scope_cases hseen with ⟨ha, hb⟩ | ⟨a, b, ha, hb, hscope⟩
      · rw [ha, hb]
        exact .none
      · rw [ha, hb]
        exact .some (hchange a b hscope)
    · rw [if_neg heq, if_neg heq]
      exact hscopes
  · intro hidden hold hshown
    rw [Store.scope?_update, if_neg (hhidden hidden hold hshown)]
    exact h.hiddenLeft hidden hold hshown
  · intro hidden hold hshown
    rw [Store.scope?_update, if_neg (hhidden hidden hold hshown)]
    exact h.hiddenRight hidden hold hshown

variable {a b : Value}

theorem Stores.set (h : view.Stores first second) (hid : view.Sees first.size id) (name : String)
    (hvalue : view.Values first.size a b) :
    view.Stores (first.update id (·.set name a)) (second.update id (·.set name b)) :=
  h.update hid fun _ _ hscope => hscope.set name hvalue

theorem Stores.declare (h : view.Stores first second) (hid : view.Sees first.size id)
    (name : String) (constant : Bool) (hvalue : view.Values first.size a b) :
    Results view.Stores (first.declare id name a constant)
      (second.declare id name b constant) := by
  unfold Store.declare
  rw [← h.binds hid name]
  cases first.binds id name with
  | true => exact .error _
  | false => exact .ok (h.update hid fun _ _ hscope => hscope.add name constant hvalue)

theorem Stores.assign (h : view.Stores first second) (hid : view.Sees first.size id)
    (name : String) (hvalue : view.Values first.size a b) :
    Results view.Stores (first.assign id name a) (second.assign id name b) := by
  have howners := h.owner? hid name
  unfold Store.assign
  rw [Store.resolve_eq, Store.resolve_eq, ← howners.1]
  cases howner : first.owner? id name with
  | none => exact .error _
  | some owner =>
      have hseen := howners.2 owner howner
      simp only [bind, Except.bind]
      rw [← h.holdsConstant hseen name]
      cases first.holdsConstant owner name with
      | true => exact .error _
      | false => exact .ok (h.set hseen name hvalue)

theorem Stores.overwrite (h : view.Stores first second) (hid : view.Sees first.size id)
    (name : String) (hvalue : view.Values first.size a b) :
    view.Stores (first.overwrite id name a) (second.overwrite id name b) := by
  have howners := h.owner? hid name
  unfold Store.overwrite
  rw [← howners.1]
  cases howner : first.owner? id name with
  | none => exact h
  | some owner =>
      have hseen := howners.2 owner howner
      simp only
      rw [← h.holdsConstant hseen name]
      cases first.holdsConstant owner name with
      | true => exact h
      | false => exact h.set hseen name hvalue

/-- A new scope inside a seen one is seen from then on. -/
theorem Stores.create (h : view.Stores first second) (hid : view.Sees first.size id) :
    view.Stores (first.create (some id)) (second.create (some id)) := by
  have hlarger : first.size ≤ (first.create (some id)).size := by simp
  have hold : ∀ {hidden}, hidden < view.left.size → hidden ≠ first.size := fun hless =>
    Nat.ne_of_lt (Nat.lt_of_lt_of_le hless h.grown)
  constructor
  · simp [h.size]
  · simpa using Nat.le_succ_of_le h.grown
  · intro seen hseen
    rw [Store.scope?_create, Store.scope?_create, ← h.size]
    by_cases heq : seen = first.size
    · rw [if_pos heq, if_pos heq]
      exact .some (Scope.alike_empty (hid.mono hlarger))
    · rw [if_neg heq, if_neg heq]
      have hbefore : view.Sees first.size seen := by
        refine hseen.imp_right fun hnew => ⟨hnew.1, ?_⟩
        rw [Store.size_create] at hnew
        exact Nat.lt_of_le_of_ne (Nat.le_of_lt_succ hnew.2) heq
      rcases h.scope_cases hbefore with ⟨ha, hb⟩ | ⟨a, b, ha, hb, hscope⟩
      · rw [ha, hb]
        exact .none
      · rw [ha, hb]
        exact .some (hscope.mono fun _ hother => hother.mono hlarger)
  · intro hidden hless hshown
    rw [Store.scope?_create, if_neg (hold hless)]
    exact h.hiddenLeft hidden hless hshown
  · intro hidden hless hshown
    rw [Store.scope?_create, ← h.size, if_neg (hold hless)]
    exact h.hiddenRight hidden hless hshown

end View

end Nomi
