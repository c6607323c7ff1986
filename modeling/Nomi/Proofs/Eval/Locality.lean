import Nomi.Proofs.Eval.Agreement

/-!
# Locality of evaluation

From the scope that a tree is evaluated in, parents and the functions held by
variables lead to further scopes.  Evaluation depends on these and on nothing else
that was there before, changes nothing else, and gives no function of another scope.
-/

namespace Nomi

/-- The scopes that lead on from a scope: its parents, and the scopes in which the
functions were declared that its variables hold, at any depth. -/
inductive Store.Reaches (store : Store) (start : ScopeId) : ScopeId → Prop
  | start : Reaches store start start
  | outwards {id outer : ScopeId} {scope : Scope} (h : Reaches store start id)
      (hscope : store.scope? id = some scope) (hparent : scope.parent = some outer) :
      Reaches store start outer
  | home {id home : ScopeId} {scope : Scope} {entry : String × Value}
      (h : Reaches store start id) (hscope : store.scope? id = some scope)
      (hentry : entry ∈ scope.values) (hhome : home ∈ entry.2.homes) : Reaches store start home

/-- Whether two worlds have as many scopes and the same lines, and agree on some of
the scopes. -/
structure World.AgreesOn (seen : ScopeId → Prop) (first second : World) : Prop where
  input : second.input = first.input
  output : second.output = first.output
  size : second.store.size = first.store.size
  scopes : ∀ id, seen id → second.store.scope? id = first.store.scope? id

theorem Failure.Alike.eq {f g : Failure} (h : f.Alike Eq g) : f = g := by
  cases h with
  | operation cause hplace => rw [hplace]
  | _ => rfl

variable {seen : ScopeId → Prop}

theorem Fields.Alike.eq {first second : Fields Value}
    (h : Fields.Alike (Value.Alike Eq seen) first second) : first = second := by
  induction h with
  | nil => rfl
  | cons hentry _ ih => rw [Prod.ext hentry.1 hentry.2.eq, ih]

theorem Fields.alike_self {fields : Fields Value}
    (h : ∀ entry ∈ fields, ∀ home ∈ entry.2.homes, seen home) :
    Fields.Alike (Value.Alike Eq seen) fields fields :=
  List.forall₂_same.2 fun entry hentry => ⟨rfl, Value.alike_self entry.2 (h entry hentry)⟩

theorem Scope.Alike.eq {first second : Scope} (h : first.Alike Eq seen second) :
    first = second := by
  obtain ⟨parent, values, constants⟩ := first
  obtain ⟨hparent, _, hvalues, hconstants⟩ := h
  cases hparent
  cases hconstants
  cases Fields.Alike.eq hvalues
  rfl

/-- The view of two runs that begin in a scope: what is reached from there. -/
def reachedFrom (scope : ScopeId) (left right : Store) : View where
  places := Eq
  shown := left.Reaches scope
  left := left
  right := right

theorem worlds_start {scope : ScopeId} {first second : World}
    (h : first.AgreesOn (first.store.Reaches scope) second) :
    (reachedFrom scope first.store second.store).Worlds first second := by
  refine ⟨⟨h.size.symm, Nat.le_refl _, fun id hid => ?_, fun _ _ _ => rfl, fun _ _ _ => rfl⟩,
    h.input.symm, h.output.symm⟩
  have hreached : first.store.Reaches scope id :=
    hid.resolve_right fun hnew => absurd hnew.2 (Nat.not_lt_of_le hnew.1)
  rw [h.scopes id hreached]
  cases hscope : first.store.scope? id with
  | none => exact .none
  | some scope =>
      refine .some ⟨rfl, ?_, ?_, rfl⟩
      · exact fun outer hparent => .inl (.outwards hreached hscope hparent)
      · refine Fields.alike_self fun entry hentry home hhome => ?_
        exact .inl (.home hreached hscope hentry hhome)

/-- Worlds that are alike up to nothing agree on what was reached and what is new. -/
theorem View.Worlds.agreesOn {scope : ScopeId} {left right : Store} {first second : World}
    (h : (reachedFrom scope left right).Worlds first second) :
    first.AgreesOn (fun id => left.Reaches scope id ∨ left.size ≤ id) second := by
  refine ⟨h.input.symm, h.output.symm, h.stores.size.symm, fun id hid => ?_⟩
  by_cases hless : id < first.store.size
  · have hsees : (reachedFrom scope left right).Sees first.store.size id :=
      hid.imp_right fun hnew => ⟨hnew, hless⟩
    rcases h.stores.scope_cases hsees with ⟨ha, hb⟩ | ⟨a, b, ha, hb, hscope⟩
    · rw [ha, hb]
    · rw [ha, hb, hscope.eq]
  · have hleft := Nat.le_of_not_lt hless
    have hright := h.stores.size ▸ hleft
    rw [Store.scope?_of_size_le hleft, Store.scope?_of_size_le hright]

theorem Outcome.Alike.eq {first second : Outcome} (h : first.Alike Eq seen second) :
    first = second := by
  cases h with
  | ok hvalue => rw [hvalue.eq]
  | error hfailure => rw [hfailure.eq]

theorem Outcome.Alike.seen_homes {value : Value} {second : Outcome}
    (h : Outcome.Alike Eq seen (.ok value) second) : ∀ home ∈ value.homes, seen home := by
  cases h with
  | ok hvalue => exact hvalue.seen_homes

theorem outcome_agrees (host : Host) (depth : Nat) (scope : ScopeId) (node : Node)
    {first second : World} (h : first.AgreesOn (first.store.Reaches scope) second) :
    let evaluated := (evaluate host depth scope node).outcome
    let view := reachedFrom scope first.store second.store
    (evaluated first).1.Alike Eq (view.Sees (evaluated first).2.store.size)
        (evaluated second).1 ∧
      view.Worlds (evaluated first).2 (evaluated second).2 := by
  have hscope : (reachedFrom scope first.store second.store).Sees first.store.size scope :=
    .inl .start
  have hnode : Node.Alike Eq node node := Node.alike_self (fun _ => rfl) node
  exact (agree_evaluate _ host depth hscope hnode first second (worlds_start h)
    (Nat.le_refl _)).outcome

/--
Evaluation in a scope, whether it gives a value or fails, leaves every scope that is
not reached from there as it was, and the functions in its value are of scopes that
are reached or new.  From another world with the same reached scopes it ends the
same, takes and writes the same lines, and leaves the same in the scopes that were
reached and in all new ones.
-/
theorem evaluate_local (host : Host) (depth : Nat) (scope : ScopeId) (node : Node)
    (world : World) :
    let evaluated := (evaluate host depth scope node).outcome
    let reached := world.store.Reaches scope
    (∀ id < world.store.size, ¬ reached id →
      (evaluated world).2.store.scope? id = world.store.scope? id) ∧
      (∀ value, (evaluated world).1 = .ok value → ∀ home ∈ value.homes,
        reached home ∨ world.store.size ≤ home ∧ home < (evaluated world).2.store.size) ∧
      ∀ other, world.AgreesOn reached other →
        (evaluated other).1 = (evaluated world).1 ∧
          (evaluated world).2.AgreesOn (fun id => reached id ∨ world.store.size ≤ id)
            (evaluated other).2 := by
  intro evaluated reached
  have hself : world.AgreesOn reached world := ⟨rfl, rfl, rfl, fun _ _ => rfl⟩
  obtain ⟨houtcome, hworlds⟩ := outcome_agrees host depth scope node hself
  refine ⟨hworlds.stores.hiddenLeft, fun value hvalue home hmem => ?_, fun other hother => ?_⟩
  · have halike : Outcome.Alike Eq _ (.ok value) _ := hvalue ▸ houtcome
    exact halike.seen_homes home hmem
  · obtain ⟨houtcome, hworlds⟩ := outcome_agrees host depth scope node hother
    exact ⟨houtcome.eq.symm, hworlds.agreesOn⟩

end Nomi
