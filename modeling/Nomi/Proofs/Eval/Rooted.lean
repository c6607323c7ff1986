import Nomi.Proofs.Eval.Growth
import Nomi.Proofs.Eval.Keeping
import Nomi.Proofs.Store.Rooted

/-!
# Stores stay rooted

Evaluation in a scope that exists creates scopes inside of scopes that exist only, and
comes by functions of such scopes only.  So the tree of scopes stays a tree at every moment
of a session, and a name is found from every scope of it.
-/

namespace Nomi

/-- Stores are rooted, and programs come by functions of scopes that exist only. -/
def Invariant.rooted : Invariant where
  holds := Store.Rooted
  good := Value.Housed
  allowed _ := True
  sees size scope := scope < size
  owns _ _ := True

theorem lawful_rooted (host : Host) : Invariant.rooted.Lawful host where
  good_mono h hlarger := Value.Housed.mono h hlarger
  owns_mono h _ := h
  plain {_ value} h := by
    refine Value.housed_of_homeless ?_
    cases value <;> first | rfl | contradiction
  array_iff := Value.housed_array_iff
  object_iff := Value.housed_object_iff
  home h := h _ List.mem_cons_self
  lookup h hvalue := h.values.lookup hvalue
  create h hparent := ⟨h.create hparent, Nat.lt_succ_self _, trivial⟩
  declare h _ hvalue hafter := h.declare hvalue hafter
  assign h hvalue hafter := h.assign hvalue hafter
  overwrite h scope name _ hvalue := h.overwrite scope name hvalue
  unresolved _ := trivial
  declared _ := trivial
  constant _ := trivial
  ending := trivial

/-- Every tree suits a scope that exists.  The scope of a call is new, and exists from then on. -/
theorem covers_rooted (host : Host) :
    Invariant.rooted.Covers host fun _ size scope _ => scope < size where
  later h hlarger := Nat.lt_of_lt_of_le h hlarger
  shallow _ := trivial
  operands := by
    rintro depth size scope node h operand hmem
    cases operand with
    | node part => exact h
    | name | fault => trivial
  failure _ _ _ := trivial
  declares _ _ := trivial
  function h := Value.housed_function h
  body _ _ hsees _ _ _ := hsees

theorem rooted_evaluate (host : Host) (depth : Nat) {size : Nat} {scope : ScopeId}
    (hscope : scope < size) (node : Node) :
    Invariant.rooted.Keeps size (moments host depth scope node) (evaluate host depth scope node)
      Value.Housed :=
  Invariant.keeps_evaluate (lawful_rooted host) (covers_rooted host) hscope

open Eval

theorem rooted_stepMoments (host : Host) (source : String) {world : World}
    (h : world.store.Rooted) : ∀ moment ∈ stepMoments host source world, moment.store.Rooted := by
  unfold stepMoments
  cases parse source with
  | error error =>
      intro moment hmem
      rwa [List.mem_singleton.1 hmem]
  | ok program =>
      intro moment hmem
      have hprogram := rooted_evaluate host depthLimit h.global program
      exact (hprogram.through world ⟨Nat.le_refl _, h⟩ moment hmem).2

theorem rooted_step (host : Host) (source : String) {world : World} (h : world.store.Rooted) :
    (step host source world).2.store.Rooted :=
  rooted_stepMoments host source h _ (path_step host source world).last_mem

theorem rooted_sessionMoments (host : Host) (sources : List String) {world : World}
    (h : world.store.Rooted) :
    ∀ moment ∈ sessionMoments host sources world, moment.store.Rooted := by
  induction sources generalizing world with
  | nil =>
      intro moment hmem
      rwa [List.mem_singleton.1 hmem]
  | cons source rest ih =>
      intro moment hmem
      rcases List.mem_append.1 hmem with hmem | hmem
      · exact rooted_stepMoments host source h moment hmem
      · exact ih (rooted_step host source h) moment hmem

theorem housed_step (host : Host) (source : String) {world : World} {value : Value}
    (h : world.store.Rooted) (hvalue : (step host source world).1 = .ok value) :
    value.Housed (step host source world).2.store.size := by
  unfold step at hvalue ⊢
  cases hparse : parse source with
  | error error =>
      rw [hparse] at hvalue
      contradiction
  | ok program =>
      have hprogram := rooted_evaluate host depthLimit h.global program
      rw [hparse] at hvalue
      simp only [evaluateGlobally, outcome] at hvalue ⊢
      cases hresult : evaluate host depthLimit Store.globalId program world with
      | error failure next =>
          rw [hresult] at hvalue
          contradiction
      | ok found next =>
          rw [hresult] at hvalue
          cases hvalue
          exact (hprogram.ok world ⟨Nat.le_refl _, h⟩ _ next hresult).2

theorem housed_session (host : Host) (sources : List String) {world : World}
    (h : world.store.Rooted) :
    ∀ result ∈ session host sources world, ∀ value, result.1 = .ok value →
      value.Housed result.2.store.size := by
  induction sources generalizing world with
  | nil => exact fun _ hmem => absurd hmem List.not_mem_nil
  | cons source rest ih =>
      intro result hmem value hvalue
      rcases List.mem_cons.1 hmem with rfl | hmem
      · exact housed_step host source h hvalue
      · exact ih (rooted_step host source h) result hmem value hvalue

/--
The scopes of a session are a tree, whichever way its steps end.

At every moment of a session, the ends of its steps among them, each scope but the global
one has a parent that is older than itself, and each function in a variable, at any depth,
is of a scope that exists.  So is each function that a step gives, or that any evaluation
gives which begins at such a moment in a scope that exists.  From every scope the parents
lead to the global scope.  A search along them takes no more steps than there are scopes,
and finds the nearest scope that binds a name, or none just when none on the way binds it.
-/
theorem session_rooted (host : Host) (sources : List String) (input : List String) :
    let moments := sessionMoments host sources (.initial input)
    let steps := session host sources (.initial input)
    (steps.map (·.2)).Sublist moments ∧
      (∀ result ∈ steps, ∀ value, result.1 = .ok value →
        value.Housed result.2.store.size) ∧
      ∀ world ∈ moments, world.store.Rooted ∧
        (∀ depth scope node value next, scope < world.store.size →
          evaluate host depth scope node world = .ok value next →
            value.Housed next.store.size) ∧
        ∀ id < world.store.size, world.store.Outwards id := by
  intro moments steps
  have hinitial : (World.initial input).store.Rooted := Store.rooted_initial
  refine ⟨session_sublist_moments host sources _, housed_session host sources hinitial, ?_⟩
  intro world hworld
  have hrooted := rooted_sessionMoments host sources hinitial world hworld
  refine ⟨hrooted, ?_, fun id hid => hrooted.outwards hid⟩
  intro depth scope node value next hscope hresult
  have hevaluate := rooted_evaluate host depth hscope node
  exact (hevaluate.ok world ⟨Nat.le_refl _, hrooted⟩ value next hresult).2

end Nomi
