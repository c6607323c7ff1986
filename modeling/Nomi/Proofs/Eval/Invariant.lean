import Nomi.Proofs.Eval.Moments

/-!
# Invariants of computations

An invariant says what runs keep: what holds of the store, which values programs come by,
how runs may fail, and which scopes functions are of and names are declared in.  There is
one rule for each way of composing computations, whatever the invariant.
-/

namespace Nomi

/-- What a run keeps.  What is known of values and scopes may depend on how many scopes there
are, and is kept when there are more. -/
structure Invariant where
  holds : Store → Prop
  good : Nat → Value → Prop
  allowed : Failure → Prop
  /-- The scopes that functions are of. -/
  sees : Nat → ScopeId → Prop
  /-- The scopes that names may be declared in. -/
  owns : Nat → ScopeId → Prop

namespace Invariant

def At (invariant : Invariant) (size : Nat) (world : World) : Prop :=
  size ≤ world.store.size ∧ invariant.holds world.store

variable {invariant : Invariant} {size later : Nat} {α β γ : Type}
  {moments : World → List World} {result : Nat → α → Prop} {middle : Nat → α → Prop}
  {final : Nat → β → Prop}

/-- Whether a computation, from a world with at least so many scopes, goes through worlds of
which the invariant holds, gives a good result and fails in an allowed way only. -/
structure Keeps (invariant : Invariant) (size : Nat) (moments : World → List World)
    (computation : Eval α) (result : Nat → α → Prop) : Prop where
  through : ∀ world, invariant.At size world →
    ∀ moment ∈ moments world, invariant.At world.store.size moment
  ok : ∀ world, invariant.At size world → ∀ value next, computation world = .ok value next →
    next ∈ moments world ∧ result next.store.size value
  error : ∀ world, invariant.At size world → ∀ failure next,
    computation world = .error failure next → next ∈ moments world ∧ invariant.allowed failure

open Eval

theorem Keeps.mono {computation : Eval α} (h : invariant.Keeps size moments computation result)
    (hlater : size ≤ later) : invariant.Keeps later moments computation result where
  through world hworld := h.through world ⟨Nat.le_trans hlater hworld.1, hworld.2⟩
  ok world hworld := h.ok world ⟨Nat.le_trans hlater hworld.1, hworld.2⟩
  error world hworld := h.error world ⟨Nat.le_trans hlater hworld.1, hworld.2⟩

theorem Keeps.after {computation : Eval α} {world : World}
    (h : invariant.Keeps size moments computation result) (hworld : invariant.At size world) :
    invariant.At world.store.size (computation.after world) := by
  unfold Eval.after
  cases hends : computation world with
  | ok value next => exact h.through world hworld next (h.ok world hworld value next hends).1
  | error failure next =>
      exact h.through world hworld next (h.error world hworld failure next hends).1

/-- A computation that leaves the world as it is has no other moment. -/
theorem keeps_still {computation : Eval α}
    (h : ∀ world, invariant.At size world →
      match computation world with
      | .ok value next => next = world ∧ result world.store.size value
      | .error failure next => next = world ∧ invariant.allowed failure) :
    invariant.Keeps size (fun world => [world]) computation result where
  through world hworld moment hmem := by
    rw [List.mem_singleton.1 hmem]
    exact ⟨Nat.le_refl _, hworld.2⟩
  ok world hworld value next hresult := by
    have hends := h world hworld
    rw [hresult] at hends
    obtain ⟨rfl, hvalue⟩ := hends
    exact ⟨List.mem_singleton_self _, hvalue⟩
  error world hworld failure next hresult := by
    have hends := h world hworld
    rw [hresult] at hends
    obtain ⟨rfl, hfailure⟩ := hends
    exact ⟨List.mem_singleton_self _, hfailure⟩

theorem keeps_pure {value : α} (h : ∀ later, size ≤ later → result later value) :
    invariant.Keeps size (fun world => [world]) (pure value) result :=
  keeps_still fun _ hworld => ⟨rfl, h _ hworld.1⟩

theorem keeps_throw {failure : Failure} (h : invariant.allowed failure) :
    invariant.Keeps size (fun world => [world]) (throw failure) result :=
  keeps_still fun _ _ => ⟨rfl, h⟩

theorem keeps_bind {first : Eval α} {rest : α → Eval β} {more : α → World → List World}
    (hfirst : invariant.Keeps size moments first middle)
    (hrest : ∀ later value, size ≤ later → middle later value →
      invariant.Keeps later (more value) (rest value) final) :
    invariant.Keeps size (andThen first moments more) (first >>= rest) final := by
  -- what the rest does is known of the world that the first computation leaves
  have hgoes : ∀ world, invariant.At size world → ∀ value next, first world = .ok value next →
      invariant.At world.store.size next ∧
        invariant.Keeps next.store.size (more value) (rest value) final := by
    intro world hworld value next hresult
    obtain ⟨hmem, hvalue⟩ := hfirst.ok world hworld value next hresult
    have hnext := hfirst.through world hworld next hmem
    exact ⟨hnext, hrest _ value (Nat.le_trans hworld.1 hnext.1) hvalue⟩
  have hmore : ∀ world value next, first world = .ok value next →
      andThen first moments more world = moments world ++ more value next := by
    intro world value next hresult
    rw [andThen, hresult]
  constructor
  · intro world hworld moment hmem
    rcases List.mem_append.1 hmem with hmem | hmem
    · exact hfirst.through world hworld moment hmem
    · cases hresult : first world with
      | error failure next =>
          rw [hresult] at hmem
          contradiction
      | ok value next =>
          rw [hresult] at hmem
          obtain ⟨hnext, hkeeps⟩ := hgoes world hworld value next hresult
          obtain ⟨hlast, hmoment⟩ := hkeeps.through next ⟨Nat.le_refl _, hnext.2⟩ moment hmem
          exact ⟨Nat.le_trans hnext.1 hlast, hmoment⟩
  · intro world hworld value last hresult
    obtain ⟨found, next, hone, htwo⟩ := bind_ok hresult
    obtain ⟨hnext, hkeeps⟩ := hgoes world hworld found next hone
    obtain ⟨hmem, hvalue⟩ := hkeeps.ok next ⟨Nat.le_refl _, hnext.2⟩ value last htwo
    rw [hmore world found next hone]
    exact ⟨List.mem_append_right _ hmem, hvalue⟩
  · intro world hworld failure last hresult
    rcases bind_error hresult with hone | ⟨found, next, hone, htwo⟩
    · obtain ⟨hmem, hfailure⟩ := hfirst.error world hworld failure last hone
      exact ⟨List.mem_append_left _ hmem, hfailure⟩
    · obtain ⟨hnext, hkeeps⟩ := hgoes world hworld found next hone
      obtain ⟨hmem, hfailure⟩ := hkeeps.error next ⟨Nat.le_refl _, hnext.2⟩ failure last htwo
      rw [hmore world found next hone]
      exact ⟨List.mem_append_right _ hmem, hfailure⟩

/-- What is made of a result adds no moments. -/
theorem Keeps.map {first : Eval α} (h : invariant.Keeps size moments first middle)
    (f : α → β)
    (hresult : ∀ later value, size ≤ later → middle later value → final later (f value)) :
    invariant.Keeps size moments (first >>= fun value => return f value) final where
  through := h.through
  ok world hworld value last hends := by
    obtain ⟨found, next, hone, htwo⟩ := bind_ok hends
    cases htwo
    obtain ⟨hmem, hfound⟩ := h.ok world hworld found last hone
    have hlast := (h.through world hworld last hmem).1
    exact ⟨hmem, hresult _ found (Nat.le_trans hworld.1 hlast) hfound⟩
  error world hworld failure last hends := by
    rcases bind_error hends with hone | ⟨_, _, _, htwo⟩
    · exact h.error world hworld failure last hone
    · cases htwo

/-- A computation that makes one change at most. -/
theorem keeps_atOnce {computation : Eval α}
    (h : ∀ world, invariant.At size world →
      match computation world with
      | .ok value next => invariant.At world.store.size next ∧ result next.store.size value
      | .error failure next => invariant.At world.store.size next ∧ invariant.allowed failure) :
    invariant.Keeps size (atOnce computation) computation result where
  through world hworld moment hmem := by
    have hends := h world hworld
    rcases List.mem_cons.1 hmem with rfl | hmem
    · exact ⟨Nat.le_refl _, hworld.2⟩
    · rw [List.mem_singleton.1 hmem, after]
      cases hresult : computation world with
      | ok value next =>
          rw [hresult] at hends
          exact hends.1
      | error failure next =>
          rw [hresult] at hends
          exact hends.1
  ok world hworld value next hresult := by
    have hends := h world hworld
    rw [hresult] at hends
    refine ⟨List.mem_cons_of_mem _ (List.mem_singleton.2 ?_), hends.2⟩
    rw [after, hresult]
  error world hworld failure next hresult := by
    have hends := h world hworld
    rw [hresult] at hends
    refine ⟨List.mem_cons_of_mem _ (List.mem_singleton.2 ?_), hends.2⟩
    rw [after, hresult]

theorem keeps_mapM {f : γ → Eval α} {visit : γ → World → List World} {items : List γ}
    (hresult : ∀ size larger value, result size value → size ≤ larger → result larger value)
    (h : ∀ item ∈ items, invariant.Keeps size (visit item) (f item) result) :
    invariant.Keeps size (inTurn f visit items) (items.mapM f)
      fun size values => ∀ value ∈ values, result size value := by
  induction items generalizing size with
  | nil => exact keeps_pure fun _ _ _ hmem => absurd hmem List.not_mem_nil
  | cons item rest ih =>
      rw [List.mapM_cons]
      apply keeps_bind (h item List.mem_cons_self)
      intro later value hlater hvalue
      have hrest := ih fun other hmem => (h other (List.mem_cons_of_mem _ hmem)).mono hlater
      refine hrest.map (value :: ·) fun last values hlast hvalues => ?_
      exact List.forall_mem_cons.2 ⟨hresult _ _ _ hvalue hlast, hvalues⟩

end Invariant

end Nomi
