import Nomi.Proofs.Eval.Invariant
import Nomi.Proofs.Eval.Values
import Nomi.Proofs.Store.Every

/-!
# What evaluation keeps

An invariant is kept by evaluation if the operations of the store keep it, and if the nodes
that suit it ask for operands and take actions that do.  What each kind of node does is gone
through here once, for all invariants.
-/

namespace Nomi

def Node.isDeclaration : Node → Bool
  | .declaration .. | .function .. => true
  | _ => false

theorem Operand.mem_ofOptional {operand : Operand} {value : Node}
    (h : operand ∈ ofOptional value) : operand = .node value ∧ value.isAbsent = false := by
  cases value with
  | absent => contradiction
  | _ => exact ⟨List.mem_singleton.1 h, rfl⟩

theorem Operand.mem_ofEntry_property {operand : Operand} {position : Position} {key : String}
    {value : Node} (h : operand ∈ ofEntry (.property position key value)) :
    operand = .name key ∨ operand = .node value ∧ value.isAbsent = false := by
  cases value with
  | absent => exact .inl (List.mem_singleton.1 h)
  | _ => exact .inr ⟨List.mem_singleton.1 h, rfl⟩

def Action.failure? : Action → Option Failure
  | .fault cause => some (.fault cause)
  | .refuse cause position => some (.operation cause position)
  | _ => none

theorem Action.failure?_cases {action : Action} {failure : Failure}
    (h : action.failure? = some failure) :
    (∃ cause, failure = .fault cause) ∨ ∃ cause position, failure = .operation cause position := by
  cases action with
  | fault cause =>
      cases h
      exact .inl ⟨cause, rfl⟩
  | refuse cause position =>
      cases h
      exact .inr ⟨cause, position, rfl⟩
  | _ => contradiction

namespace Invariant

/-- Whether the values that programs write and find keep an invariant, and so do the changes
that they make. -/
structure Lawful (invariant : Invariant) (host : Host) : Prop where
  good_mono {size larger : Nat} {value : Value} (h : invariant.good size value)
    (hlarger : size ≤ larger) : invariant.good larger value
  owns_mono {size larger : Nat} {scope : ScopeId} (h : invariant.owns size scope)
    (hlarger : size ≤ larger) : invariant.owns larger scope
  plain {size : Nat} {value : Value} (h : value.isPlain = true) : invariant.good size value
  array_iff {size : Nat} {elements : List Value} :
    invariant.good size (.array elements) ↔ ∀ value ∈ elements, invariant.good size value
  object_iff {size : Nat} {fields : Fields Value} :
    invariant.good size (.object fields) ↔ ∀ entry ∈ fields, invariant.good size entry.2
  home {size : Nat} {name : String} {parameters : List String} {body : List Node}
    {home : ScopeId} (h : invariant.good size (.function name parameters body home)) :
    invariant.sees size home
  lookup {store : Store} {scope : ScopeId} {name : String} {value : Value}
    (h : invariant.holds store) (hvalue : store.lookup scope name = .ok value) :
    invariant.good store.size value
  create {store : Store} {parent : ScopeId} (h : invariant.holds store)
    (hparent : invariant.sees store.size parent) :
    invariant.holds (store.create (some parent)) ∧
      invariant.sees (store.size + 1) store.size ∧ invariant.owns (store.size + 1) store.size
  declare {store after : Store} {scope : ScopeId} {name : String} {value : Value}
    {constant : Bool} (h : invariant.holds store) (hscope : invariant.owns store.size scope)
    (hvalue : invariant.good store.size value)
    (hafter : store.declare scope name value constant = .ok after) : invariant.holds after
  assign {store after : Store} {scope : ScopeId} {name : String} {value : Value}
    (h : invariant.holds store) (hvalue : invariant.good store.size value)
    (hafter : store.assign scope name value = .ok after) : invariant.holds after
  overwrite {store : Store} (h : invariant.holds store) (scope : ScopeId) (name : String)
    {value : Value} (hvalue : invariant.good store.size value) :
    invariant.holds (store.overwrite scope name value)
  unresolved (name : String) : invariant.allowed (.scope (.unresolved name))
  declared (name : String) : invariant.allowed (.scope (.alreadyDeclared name))
  constant (name : String) : invariant.allowed (.scope (.constant name))
  ending : invariant.allowed host.ending.failure

variable {invariant : Invariant} {host : Host} {size : Nat}

open Eval

theorem keeps_runBody {statement : Node → Eval Value} {visit : Node → World → List World}
    {body : List Node} (hlaws : invariant.Lawful host)
    (h : ∀ node ∈ body, invariant.Keeps size (visit node) (statement node) invariant.good) :
    invariant.Keeps size (inTurn statement visit body) (runBody statement body)
      invariant.good := by
  have hmono : ∀ size larger value, invariant.good size value → size ≤ larger →
      invariant.good larger value := fun _ _ _ => hlaws.good_mono
  rw [runBody_eq_mapM]
  refine (keeps_mapM hmono h).map _ fun later values _ hvalues => ?_
  exact List.forall_mem_cons.2 ⟨hlaws.plain rfl, hvalues⟩ _ (List.getLastD_mem_cons ..)

theorem keeps_lookup (hlaws : invariant.Lawful host) (scope : ScopeId) (name : String) :
    invariant.Keeps size (fun world => [world]) (ofStore (·.lookup scope name))
      invariant.good := by
  apply keeps_still
  intro world hworld
  simp only [ofStore]
  cases hlookup : world.store.lookup scope name with
  | ok value => exact ⟨rfl, hlaws.lookup hworld.2 hlookup⟩
  | error error =>
      rw [Store.lookup_error hlookup]
      exact ⟨rfl, hlaws.unresolved name⟩

/-- A change of the store that creates no scope. -/
theorem keeps_changeStore {change : Store → Except ScopeError Store}
    (hafter : ∀ store after, size ≤ store.size → invariant.holds store →
      change store = .ok after → after.size = store.size ∧ invariant.holds after)
    (herror : ∀ store error, change store = .error error → invariant.allowed (.scope error)) :
    invariant.Keeps size (atOnce (changeStore change)) (changeStore change) fun _ _ => True := by
  apply keeps_atOnce
  intro world hworld
  simp only [changeStore]
  cases hresult : change world.store with
  | ok store =>
      obtain ⟨hsame, hholds⟩ := hafter world.store store hworld.1 hworld.2 hresult
      exact ⟨⟨Nat.le_of_eq hsame.symm, hholds⟩, trivial⟩
  | error error => exact ⟨⟨Nat.le_refl _, hworld.2⟩, herror _ _ hresult⟩

theorem keeps_declare (hlaws : invariant.Lawful host) {scope : ScopeId} {value : Value}
    (hscope : invariant.owns size scope) (hvalue : invariant.good size value) (name : String)
    (constant : Bool) :
    invariant.Keeps size (atOnce (changeStore (·.declare scope name value constant)))
      (changeStore (·.declare scope name value constant)) fun _ _ => True := by
  apply keeps_changeStore
  · intro store after hsize hholds hafter
    refine ⟨Store.size_declare hafter, ?_⟩
    exact hlaws.declare hholds (hlaws.owns_mono hscope hsize) (hlaws.good_mono hvalue hsize) hafter
  · intro store error herror
    rw [Store.declare_error herror]
    exact hlaws.declared name

theorem keeps_assign (hlaws : invariant.Lawful host) {value : Value}
    (hvalue : invariant.good size value) (scope : ScopeId) (name : String) :
    invariant.Keeps size (atOnce (changeStore (·.assign scope name value)))
      (changeStore (·.assign scope name value)) fun _ _ => True := by
  apply keeps_changeStore
  · intro store after hsize hholds hafter
    exact ⟨Store.size_assign hafter, hlaws.assign hholds (hlaws.good_mono hvalue hsize) hafter⟩
  · intro store error herror
    rcases Store.assign_error herror with rfl | rfl
    · exact hlaws.unresolved name
    · exact hlaws.constant name

theorem keeps_createScope (hlaws : invariant.Lawful host) {parent : ScopeId}
    (hparent : ∀ later, size ≤ later → invariant.sees later parent) :
    invariant.Keeps size (atOnce (createScope parent)) (createScope parent)
      fun size inner => invariant.sees size inner ∧ invariant.owns size inner := by
  apply keeps_atOnce
  intro world hworld
  obtain ⟨hholds, hinner⟩ := hlaws.create hworld.2 (hparent _ hworld.1)
  have hsize : (world.store.create (some parent)).size = world.store.size + 1 :=
    Store.size_create ..
  simp only [createScope, At, hsize]
  exact ⟨⟨Nat.le_succ _, hholds⟩, hinner⟩

/-- Parameters without an argument are null. -/
theorem keeps_bindParameters (hlaws : invariant.Lawful host) {scope : ScopeId}
    {values : List Value} (hscope : invariant.owns size scope)
    (h : ∀ value ∈ values, invariant.good size value) (names : List String) :
    invariant.Keeps size (bindingMoments scope names values) (bindParameters scope names values)
      fun _ _ => True := by
  induction names generalizing size values with
  | nil => exact keeps_pure fun _ _ => trivial
  | cons name rest ih =>
      have hhead : invariant.good size (values.headD .null) := by
        cases values with
        | nil => exact hlaws.plain rfl
        | cons value more => exact h value List.mem_cons_self
      apply keeps_bind (keeps_declare hlaws hscope hhead name false)
      intro later _ hlater _
      apply ih (hlaws.owns_mono hscope hlater)
      exact fun value hmem => hlaws.good_mono (h value (List.mem_of_mem_tail hmem)) hlater

theorem keeps_readLine (hlaws : invariant.Lawful host) (scope : ScopeId) (name : String)
    (standalone : Bool) :
    invariant.Keeps size (readMoments host scope name standalone)
      (readLine host scope name standalone) invariant.good := by
  have hline : invariant.Keeps size (atOnce (takeLine host)) (takeLine host) fun _ _ => True := by
    apply keeps_atOnce
    intro world hworld
    cases hinput : world.input with
    | cons line rest =>
        rw [takeLine_cons host hinput]
        exact ⟨⟨Nat.le_refl _, hworld.2⟩, trivial⟩
    | nil =>
        rw [takeLine_nil host hinput]
        exact ⟨⟨Nat.le_refl _, hworld.2⟩, hlaws.ending⟩
  apply keeps_bind hline
  intro later line _ _
  cases standalone with
  | false => exact keeps_pure fun _ _ => hlaws.plain rfl
  | true =>
      have hstore : invariant.Keeps later (atOnce (storeIfWritable scope name (.string line)))
          (storeIfWritable scope name (.string line)) fun _ _ => True := by
        apply keeps_atOnce
        intro world hworld
        have hline : invariant.good world.store.size (.string line) := hlaws.plain rfl
        have hafter := hlaws.overwrite hworld.2 scope name hline
        exact ⟨⟨Nat.le_of_eq (Store.size_overwrite ..).symm, hafter⟩, trivial⟩
      exact hstore.map _ fun _ _ _ _ => hlaws.plain rfl

theorem keeps_writeLine (line : String) :
    invariant.Keeps size (atOnce (writeLine line)) (writeLine line) fun _ _ => True :=
  keeps_atOnce fun _ hworld => ⟨⟨Nat.le_refl _, hworld.2⟩, trivial⟩

/-! ## Operands and actions -/

/-- Whether an operand keeps an invariant if the nodes that suit it do. -/
def Admits (invariant : Invariant) (suits : Node → Prop) : Operand → Prop
  | .node part => suits part
  | .name _ => True
  | .fault cause => invariant.allowed (.fault cause)

/-- Whether an action in a scope keeps an invariant if the nodes that suit it do, in as many
scopes as there are then. -/
def Permits (invariant : Invariant) (suits : Nat → ScopeId → Node → Prop) (size : Nat)
    (scope : ScopeId) : Action → Prop
  | .give value | .assign _ value => invariant.good size value
  | .fault cause => invariant.allowed (.fault cause)
  | .refuse cause position => invariant.allowed (.operation cause position)
  | .declare _ value _ => invariant.owns size scope ∧ invariant.good size value
  | .read .. | .write _ => True
  | .enter home _ values body =>
      (∀ later, size ≤ later → invariant.sees later home) ∧
        (∀ value ∈ values, invariant.good size value) ∧
        ∀ later inner, invariant.sees later inner → invariant.owns later inner →
          ∀ part ∈ body, suits later inner part

section

variable {suits : Nat → ScopeId → Node → Prop} {visit : ScopeId → Node → Eval Value}
  {seen : ScopeId → Node → World → List World}

theorem keeps_operand (hlaws : invariant.Lawful host)
    (h : ∀ size scope node, suits size scope node →
      invariant.Keeps size (seen scope node) (visit scope node) invariant.good)
    {scope : ScopeId} {operand : Operand} (hoperand : invariant.Admits (suits size scope) operand) :
    invariant.Keeps size (operandMoments (seen scope) operand)
      (operand.run (visit scope) scope) invariant.good := by
  cases operand with
  | node part => exact h size scope part hoperand
  | name key => exact keeps_lookup hlaws scope key
  | fault cause => exact keeps_throw hoperand

theorem keeps_action (hlaws : invariant.Lawful host)
    (h : ∀ size scope node, suits size scope node →
      invariant.Keeps size (seen scope node) (visit scope node) invariant.good)
    {scope : ScopeId} {action : Action} (haction : invariant.Permits suits size scope action) :
    invariant.Keeps size (actionMoments host visit seen scope action)
      (action.run host visit scope) invariant.good := by
  have hgives : ∀ {value}, invariant.good size value → ∀ later (_ : Unit), size ≤ later → True →
      invariant.good later value := fun hvalue _ _ hlater _ => hlaws.good_mono hvalue hlater
  cases action with
  | give value => exact keeps_pure fun later hlater => hlaws.good_mono haction hlater
  | fault cause => exact keeps_throw haction
  | refuse cause position => exact keeps_throw haction
  | declare name value constant =>
      exact (keeps_declare hlaws haction.1 haction.2 name constant).map _ (hgives haction.2)
  | assign name value => exact (keeps_assign hlaws haction scope name).map _ (hgives haction)
  | read name standalone => exact keeps_readLine hlaws scope name standalone
  | write line => exact (keeps_writeLine line).map _ fun _ _ _ _ => hlaws.plain rfl
  | enter home parameters values body =>
      obtain ⟨hhome, hvalues, hbody⟩ := haction
      simp only [actionMoments, Action.run]
      apply keeps_bind (keeps_createScope hlaws hhome)
      intro entered inner hentered hinner
      have hgiven : ∀ value ∈ values, invariant.good entered value :=
        fun value hmem => hlaws.good_mono (hvalues value hmem) hentered
      apply keeps_bind (keeps_bindParameters hlaws hinner.2 hgiven parameters)
      intro bound _ hbound _
      apply keeps_runBody hlaws
      intro part hpart
      exact (h entered inner part (hbody entered inner hinner.1 hinner.2 part hpart)).mono hbound

end

/-! ## Trees -/

/-- Whether the nodes that suit an invariant, at a depth and in a scope, keep it if those do
that are evaluated for them one level down.  They ask for operands that suit it, fail in an
allowed way, and declare where it is allowed. -/
structure Covers (invariant : Invariant) (host : Host)
    (suits : Nat → Nat → ScopeId → Node → Prop) : Prop where
  later {depth size larger : Nat} {scope : ScopeId} {node : Node}
    (h : suits depth size scope node) (hlarger : size ≤ larger) : suits depth larger scope node
  shallow {size : Nat} {scope : ScopeId} {node : Node} (h : suits 0 size scope node) :
    invariant.allowed .tooDeep
  operands {depth size : Nat} {scope : ScopeId} {node : Node}
    (h : suits (depth + 1) size scope node) :
    ∀ operand ∈ node.operands, invariant.Admits (suits depth size scope) operand
  failure {depth size : Nat} {scope : ScopeId} {node : Node} {values : List Value}
    {failure : Failure} (h : suits (depth + 1) size scope node)
    (hvalues : ∀ value ∈ values, invariant.good size value)
    (hfailure : (node.action host scope values).failure? = some failure) :
    invariant.allowed failure
  declares {depth size : Nat} {scope : ScopeId} {node : Node}
    (h : suits (depth + 1) size scope node) (hnode : node.isDeclaration = true) :
    invariant.owns size scope
  function {depth size : Nat} {scope : ScopeId} {position : Position} {name : String}
    {parameters : List String} {body : List Node}
    (h : suits (depth + 1) size scope (.function position name parameters body)) :
    invariant.good size (.function name parameters body scope)
  body {depth size later : Nat} {scope home inner : ScopeId} {position : Position}
    {callee : Node} {arguments : List Node} {name : String} {parameters : List String}
    {body : List Node} (h : suits (depth + 1) size scope (.call position callee arguments))
    (hfunction : invariant.good size (.function name parameters body home))
    (hsees : invariant.sees later inner) (howns : invariant.owns later inner) :
    ∀ part ∈ body, suits depth later inner part

section

variable {suits : Nat → Nat → ScopeId → Node → Prop} {depth : Nat} {scope : ScopeId} {node : Node}
  {values : List Value}

theorem permits_ofResult {suits : Nat → ScopeId → Node → Prop} {position : Position}
    {given : Except OperationCause Value}
    (hgood : ∀ value, given = .ok value → invariant.good size value)
    (hfailure : ∀ failure, (Action.ofResult given position).failure? = some failure →
      invariant.allowed failure) :
    invariant.Permits suits size scope (.ofResult given position) := by
  cases given with
  | ok value => exact hgood value rfl
  | error cause => exact hfailure _ rfl

theorem good_property (hlaws : invariant.Lawful host) {target value : Value} {name : String}
    (h : invariant.good size target) (hvalue : target.property name = .ok value) :
    invariant.good size value := by
  obtain ⟨fields, rfl, hmem⟩ := Value.property_ok hvalue
  exact hlaws.object_iff.1 h _ hmem

theorem good_index (hlaws : invariant.Lawful host) {target key value : Value}
    (h : invariant.good size target) (hvalue : target.index key = .ok value) :
    invariant.good size value := by
  rcases Value.index_ok hvalue with ⟨elements, rfl, hmem⟩ | ⟨fields, name, rfl, hmem⟩
  · exact hlaws.array_iff.1 h _ hmem
  · exact hlaws.object_iff.1 h _ hmem

theorem permits_action (hlaws : invariant.Lawful host) (hcovers : invariant.Covers host suits)
    (h : suits (depth + 1) size scope node)
    (hvalues : ∀ value ∈ values, invariant.good size value) :
    invariant.Permits (suits depth) size scope (node.action host scope values) := by
  have hfailure : ∀ failure, (node.action host scope values).failure? = some failure →
      invariant.allowed failure := fun _ => hcovers.failure h hvalues
  have hnull : invariant.good size .null := hlaws.plain rfl
  have hhead : invariant.good size (values.headD .null) := by
    cases values with
    | nil => exact hnull
    | cons value rest => exact hvalues value List.mem_cons_self
  cases node with
  | number | string => exact hlaws.plain rfl
  | identifier => exact hhead
  | array => exact hlaws.array_iff.2 hvalues
  | object position properties =>
      apply hlaws.object_iff.2
      intro entry hmem
      exact hvalues entry.2 (List.of_mem_zip (Fields.mem_ofList hmem)).2
  | program => exact List.forall_mem_cons.2 ⟨hnull, hvalues⟩ _ (List.getLastD_mem_cons ..)
  | read => trivial
  | declaration => exact ⟨hcovers.declares h rfl, hhead⟩
  | function => exact ⟨hcovers.declares h rfl, hcovers.function h⟩
  | property | abstract | absent => exact hfailure _ rfl
  | assignment position target value =>
      cases target with
      | identifier => exact hhead
      | _ => exact hfailure _ rfl
  | binary position operator left right =>
      exact permits_ofResult (fun _ hvalue => hlaws.plain (Value.isPlain_apply hvalue)) hfailure
  | member position owner key computed =>
      cases computed with
      | true => exact permits_ofResult (fun _ => good_index hlaws hhead) hfailure
      | false =>
          cases key with
          | identifier => exact permits_ofResult (fun _ => good_property hlaws hhead) hfailure
          | _ => exact hfailure _ rfl
  | call position callee arguments =>
      simp only [Node.action] at hfailure ⊢
      cases hfunction : values.headD .null with
      | function name parameters body home =>
          rw [hfunction] at hhead
          have hsees : ∀ later, size ≤ later → invariant.sees later home :=
            fun later hlater => hlaws.home (hlaws.good_mono hhead hlater)
          refine ⟨hsees, fun value hmem => hvalues value (List.mem_of_mem_tail hmem), ?_⟩
          exact fun later inner => hcovers.body h hhead
      | builtin function =>
          rw [hfunction] at hfailure
          cases function with
          | time => exact hlaws.plain rfl
          | other => exact hfailure _ rfl
          | print =>
              cases htexts : values.tail.mapM Value.render? with
              | some texts => simp only [Action.ofCall, htexts, Permits]
              | none =>
                  simp only [Action.ofCall, htexts] at hfailure ⊢
                  exact hfailure _ rfl
      | _ =>
          rw [hfunction] at hfailure
          exact hfailure _ rfl

end

theorem keeps_evaluate {suits : Nat → Nat → ScopeId → Node → Prop}
    (hlaws : invariant.Lawful host) (hcovers : invariant.Covers host suits) {depth : Nat}
    {scope : ScopeId} {node : Node} (h : suits depth size scope node) :
    invariant.Keeps size (Nomi.moments host depth scope node) (evaluate host depth scope node)
      invariant.good := by
  induction depth generalizing size scope node with
  | zero => exact keeps_throw (hcovers.shallow h)
  | succ depth ih =>
      have hmono : ∀ size larger value, invariant.good size value → size ≤ larger →
          invariant.good larger value := fun _ _ _ => hlaws.good_mono
      have hnodes : ∀ size scope node, suits depth size scope node →
          invariant.Keeps size (Nomi.moments host depth scope node)
            (evaluate host depth scope node) invariant.good := fun _ _ _ => ih
      rw [evaluate_succ]
      refine keeps_bind (keeps_mapM hmono fun operand hmem => ?_) ?_
      · exact keeps_operand hlaws hnodes (hcovers.operands h operand hmem)
      intro later values hlater hvalues
      apply keeps_action hlaws hnodes
      exact permits_action hlaws hcovers (hcovers.later h hlater) hvalues

def ofValues (good : Value → Prop) (allowed : Failure → Prop) : Invariant where
  holds := Store.Every good
  good _ := good
  allowed := allowed
  sees _ _ := True
  owns _ _ := True

theorem lawful_ofValues {good : Value → Prop} {allowed : Failure → Prop}
    (hplain : ∀ {value : Value}, value.isPlain = true → good value)
    (harray : ∀ {elements : List Value}, good (.array elements) ↔ ∀ value ∈ elements, good value)
    (hobject : ∀ {fields : Fields Value},
      good (.object fields) ↔ ∀ entry ∈ fields, good entry.2)
    (hunresolved : ∀ name, allowed (.scope (.unresolved name)))
    (hdeclared : ∀ name, allowed (.scope (.alreadyDeclared name)))
    (hconstant : ∀ name, allowed (.scope (.constant name)))
    (hending : allowed host.ending.failure) : (ofValues good allowed).Lawful host where
  good_mono h _ := h
  owns_mono h _ := h
  plain := hplain
  array_iff := harray
  object_iff := hobject
  home _ := trivial
  lookup h hvalue := Store.Every.lookup h hvalue
  create h _ := ⟨Store.Every.create h _, trivial, trivial⟩
  declare h _ hvalue hafter := Store.Every.declare h hvalue hafter
  assign h hvalue hafter := Store.Every.assign h hvalue hafter
  overwrite h scope name _ hvalue := Store.Every.overwrite h scope name hvalue
  unresolved := hunresolved
  declared := hdeclared
  constant := hconstant
  ending := hending

end Invariant

end Nomi
