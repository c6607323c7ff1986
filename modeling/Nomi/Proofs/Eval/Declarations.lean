import Nomi.Proofs.Eval.Bodies
import Nomi.Proofs.Eval.Keeping
import Nomi.Proofs.Store.Declarations
import Nomi.Proofs.Syntax.Statements

/-!
# What evaluation declares

Evaluation of an expression declares nothing in a scope that was there before: the
bodies of the functions it calls run in scopes of their own.  A declaration declares
one name in the scope that it is evaluated in, and nothing if it fails.
-/

namespace Nomi

/-- Whether a failure is one of evaluation, which refuses no source. -/
def Failure.AtRunTime : Failure → Prop
  | .source _ => False
  | _ => True

/-- The scopes of an earlier store stay as they are: with the parents, names and constants that
they had.  Names are declared in scopes that are not among them, and no source is refused. -/
def Invariant.leaves (first : Store) : Invariant where
  holds := first.Stays
  good _ _ := True
  allowed := Failure.AtRunTime
  sees _ _ := True
  owns _ scope := first.size ≤ scope

theorem lawful_leaves (first : Store) (host : Host) : (Invariant.leaves first).Lawful host where
  good_mono _ _ := trivial
  owns_mono h _ := h
  plain _ := trivial
  array_iff := ⟨fun _ _ _ => trivial, fun _ => trivial⟩
  object_iff := ⟨fun _ _ _ => trivial, fun _ => trivial⟩
  home _ := trivial
  lookup _ _ := trivial
  create h _ := ⟨Store.Stays.trans h (Store.stays_create _ _), trivial, Store.Stays.size_le h⟩
  declare h hscope _ hafter := (Store.declares_declare hafter).stays h hscope
  assign h _ hafter := Store.Stays.trans h (Store.stays_assign hafter)
  overwrite h scope name _ _ := Store.Stays.trans h (Store.stays_overwrite _ scope name _)
  unresolved _ := trivial
  declared _ := trivial
  constant _ := trivial
  ending := by cases host.ending <;> trivial

open Eval

/-- What is evaluated for an expression are expressions. -/
theorem Node.isExpression_of_operand {node part : Node} (h : node.isExpression = true)
    (hpart : .node part ∈ node.operands) : part.isExpression = true := by
  have hall : ∀ {nodes : List Node}, Node.areExpressions nodes = true →
      .node part ∈ nodes.map Operand.node → part.isExpression = true := by
    intro nodes hnodes hmem
    rw [Node.areExpressions_eq_all] at hnodes
    obtain ⟨node, hnode, hsame⟩ := List.mem_map.1 hmem
    cases hsame
    exact List.all_eq_true.1 hnodes _ hnode
  cases node with
  | array position nodes => exact hall h hpart
  | object position properties =>
      obtain ⟨entry, hentry, hoperand⟩ := List.mem_flatMap.1 hpart
      have hpair := Node.arePairs_of_mem h hentry
      cases entry with
      | property place key value =>
          rcases Operand.mem_ofEntry_property hoperand with hname | ⟨hsame, hpresent⟩
          · contradiction
          · cases hsame
            simpa [Node.arePairs, hpresent] using hpair
      | _ => simp [Node.arePairs] at hpair
  | call position callee arguments =>
      simp only [Node.isExpression, Bool.and_eq_true] at h
      rcases List.mem_cons.1 hpart with hcallee | hargument
      · cases hcallee
        exact h.1
      · exact hall h.2 hargument
  | assignment position target value =>
      cases target <;> simp_all [Node.isExpression, Node.operands]
  | binary position operator left right =>
      simp only [Node.isExpression, Bool.and_eq_true] at h
      simp only [Node.operands, List.mem_cons, Operand.node.injEq, List.not_mem_nil] at hpart
      rcases hpart with rfl | rfl | hnone
      · exact h.1
      · exact h.2
      · contradiction
  | member position owner key computed =>
      simp only [Node.isExpression, Bool.and_eq_true] at h
      cases computed <;> simp_all [Node.operands]
      rcases hpart with rfl | rfl <;> simp [h]
  | _ => simp_all [Node.isExpression, Node.operands]

/-- An expression may stand in any scope, and any other tree in a scope that was not there
before.  The second holds of whatever the body of a function is, since a call runs it in a new
scope. -/
theorem covers_leaves (first : Store) (host : Host) :
    (Invariant.leaves first).Covers host
      fun _ _ scope node => first.size ≤ scope ∨ node.isExpression = true where
  later h _ := h
  shallow _ := trivial
  operands := by
    rintro depth size scope node h operand hmem
    cases operand with
    | node part => exact h.imp_right fun hnode => Node.isExpression_of_operand hnode hmem
    | name | fault => trivial
  failure _ _ hfailure := by
    rcases Action.failure?_cases hfailure with ⟨cause, rfl⟩ | ⟨cause, position, rfl⟩ <;> trivial
  declares := by
    rintro depth size scope node h hnode
    refine h.resolve_right fun hexpression => ?_
    cases node with
    | declaration | function => simp [Node.isExpression] at hexpression
    | _ => contradiction
  function _ := trivial
  body _ _ _ howns _ _ := .inl howns

/-- Evaluation refuses no source, whatever the tree. -/
theorem atRunTime_evaluate {host : Host} {depth : Nat} {scope : ScopeId} {node : Node}
    {world next : World} {failure : Failure}
    (h : evaluate host depth scope node world = .error failure next) : failure.AtRunTime := by
  have hempty : Store.empty.Stays world.store :=
    fun id found hfound => by simp [Store.scope?, Store.empty] at hfound
  have hkeeps : (Invariant.leaves .empty).Keeps 0 _ (evaluate host depth scope node) _ :=
    Invariant.keeps_evaluate (lawful_leaves _ host) (covers_leaves _ host)
      (.inl (Nat.zero_le scope))
  exact (hkeeps.error world ⟨Nat.zero_le _, hempty⟩ failure next h).2

/-- An expression declares nothing, whether it has a value or fails. -/
theorem stays_evaluate (host : Host) (depth : Nat) (scope : ScopeId) (world : World)
    {node : Node} (h : node.isExpression = true) :
    world.store.Stays ((evaluate host depth scope node).after world).store := by
  have hkeeps : (Invariant.leaves world.store).Keeps 0 _ (evaluate host depth scope node) _ :=
    Invariant.keeps_evaluate (lawful_leaves _ host) (covers_leaves _ host) (.inr h)
  exact (hkeeps.after ⟨Nat.zero_le _, .refl _⟩).2

/-! ## Statements -/

def Node.declared? : Node → Option Declared
  | .declaration _ name constant _ => some (name, constant)
  | .function _ name _ _ => some (name, false)
  | _ => none

namespace Eval

variable {host : Host} {depth : Nat} {scope : ScopeId} {world next : World} {node : Node}
  {body : List Node} {value : Value} {failure : Failure}

theorem stays_initialValue (host : Host) (depth : Nat) (scope : ScopeId) (world : World)
    (h : (node.isAbsent || node.isExpression) = true) :
    world.store.Stays ((initialValue (evaluate host depth scope) node).after world).store := by
  cases node with
  | absent => exact .refl _
  | _ => exact stays_evaluate host depth scope world h

/-- A statement that has a value has declared what it declares. -/
theorem declares_statement (h : node.isStatement = true)
    (hresult : evaluate host depth scope node world = .ok value next) :
    world.store.Declares scope node.declared?.toList next.store := by
  cases depth with
  | zero => cases hresult
  | succ depth =>
      cases node with
      | declaration position name constant initial =>
          obtain ⟨found, middle, hinitial, hresult⟩ := bind_ok hresult
          obtain ⟨_, last, hdeclare, hresult⟩ := bind_ok hresult
          cases hresult
          have hstays := stays_initialValue host depth scope world h
          rw [Eval.after, hinitial] at hstays
          obtain ⟨store, hstore, rfl⟩ := changeStore_ok hdeclare
          exact Store.Gains.trans hstays (Store.declares_declare hstore)
      | function position name parameters body =>
          obtain ⟨_, last, hdeclare, hresult⟩ := bind_ok hresult
          cases hresult
          obtain ⟨store, hstore, rfl⟩ := changeStore_ok hdeclare
          exact Store.declares_declare hstore
      | program | property | abstract | absent => contradiction
      | _ =>
          have hstays := stays_evaluate host (depth + 1) scope world h
          rw [Eval.after, hresult] at hstays
          exact (Store.declares_nil scope).2 hstays

/-- A statement that fails declares nothing. -/
theorem stays_statement (h : node.isStatement = true)
    (hresult : evaluate host depth scope node world = .error failure next) :
    world.store.Stays next.store := by
  cases depth with
  | zero =>
      cases hresult
      exact .refl _
  | succ depth =>
      cases node with
      | declaration position name constant initial =>
          have hstays := stays_initialValue host depth scope world h
          rcases bind_error hresult with hinitial | ⟨found, middle, hinitial, hresult⟩
          · rw [Eval.after, hinitial] at hstays
            exact hstays
          · rcases bind_error hresult with hdeclare | ⟨_, last, hdeclare, hresult⟩
            · rw [Eval.after, hinitial] at hstays
              rw [changeStore_error hdeclare]
              exact hstays
            · cases hresult
      | function position name parameters body =>
          rcases bind_error hresult with hdeclare | ⟨_, last, hdeclare, hresult⟩
          · rw [changeStore_error hdeclare]
            exact .refl _
          · cases hresult
      | program | property | abstract | absent => contradiction
      | _ =>
          have hstays := stays_evaluate host (depth + 1) scope world h
          rw [Eval.after, hresult] at hstays
          exact hstays

/-- Statements that have all run have declared what they declare, in their order. -/
theorem declares_runBody (h : Node.areStatements body = true)
    (hresult : runBody (evaluate host depth scope) body world = .ok value next) :
    world.store.Declares scope (body.filterMap Node.declared?) next.store := by
  induction body generalizing world with
  | nil =>
      cases hresult
      exact (Store.declares_nil scope).2 (.refl _)
  | cons node rest ih =>
      simp only [Node.areStatements, Bool.and_eq_true] at h
      cases hfirst : evaluate host depth scope node world with
      | error failure last =>
          rw [runBody_cons_error hfirst] at hresult
          contradiction
      | ok found middle =>
          have hone := declares_statement h.1 hfirst
          have hnames : (node :: rest).filterMap Node.declared? =
              node.declared?.toList ++ rest.filterMap Node.declared? := by
            cases hdeclared : node.declared? <;> simp [hdeclared]
          rw [hnames]
          refine hone.trans ?_
          cases rest with
          | nil =>
              rw [runBody_singleton, hfirst] at hresult
              cases hresult
              exact (Store.declares_nil scope).2 (.refl _)
          | cons second more =>
              rw [runBody_cons_ok hfirst (List.cons_ne_nil _ _)] at hresult
              exact ih h.2 hresult

end Eval

/--
The statements of every source that can be parsed are expressions and declarations
with expressions in them.  An expression leaves all scopes that were there with the
names and the constants they had, whether it has a value or fails.  Statements that
run in a scope declare their names there, in their order, and none in another scope.
If they fail, those before the failing one have done so, and the failing one has not
declared anything.
-/
theorem declarations_local (host : Host) :
    (∀ source program, parse source = .ok program →
      ∃ body, program = .program .start body ∧ Node.areStatements body = true) ∧
      (∀ depth scope (node : Node) (world : World), node.isExpression = true →
        world.store.Stays ((evaluate host depth scope node).after world).store) ∧
      ∀ depth scope body (world : World), Node.areStatements body = true →
        match runBody (evaluate host depth scope) body world with
        | .ok _ next => world.store.Declares scope (body.filterMap Node.declared?) next.store
        | .error failure next =>
            ∃ done failing rest value middle, body = done ++ failing :: rest ∧
              runBody (evaluate host depth scope) done world = .ok value middle ∧
              evaluate host depth scope failing middle = .error failure next ∧
              world.store.Declares scope (done.filterMap Node.declared?) middle.store ∧
              middle.store.Stays next.store := by
  refine ⟨fun _ _ => areStatements_of_parse, fun depth scope _ world => ?_, ?_⟩
  · exact stays_evaluate host depth scope world
  · intro depth scope body world h
    cases hresult : runBody (evaluate host depth scope) body world with
    | ok value next => exact declares_runBody h hresult
    | error failure next =>
        obtain ⟨done, failing, rest, value, middle, rfl, hdone, hfailing⟩ := runBody_error hresult
        rw [Node.areStatements_append, Bool.and_eq_true, Node.areStatements, Bool.and_eq_true] at h
        exact ⟨done, failing, rest, value, middle, rfl, hdone, hfailing,
          declares_runBody h.1 hdone, stays_statement h.2.1 hfailing⟩

end Nomi
