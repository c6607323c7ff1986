import Mathlib.Data.List.Forall2
import Nomi.Proofs.Eval.Moments
import Nomi.Proofs.Store.View

/-!
# Comparisons of runs

A comparison says how the stores, the values, the trees and the failures of two runs are
related.  If the operations of the store and the actions of related trees respect it, then so
does evaluation: both runs take and write the same lines and end in related ways, or the
second one escapes by a failure that tells where the two part.
-/

namespace Nomi

/-- What two runs are compared by.  What is known of values and scopes may depend on how many
scopes there are, and is kept when there are more. -/
structure Comparison where
  stores : Store → Store → Prop
  values : Nat → Value → Value → Prop
  nodes : Node → Node → Prop
  failures : Failure → Failure → Prop
  /-- The failures by which the second run leaves the first. -/
  escapes : Failure → Prop
  /-- The scopes that both runs see. -/
  sees : Nat → ScopeId → Prop

def Lasting {α β : Type} (related : Nat → α → β → Prop) : Prop :=
  ∀ size larger a b, size ≤ larger → related size a b → related larger a b

theorem Lasting.forall₂ {α β : Type} {related : Nat → α → β → Prop} (h : Lasting related) :
    Lasting fun size => List.Forall₂ (related size) :=
  fun size larger _ _ hsize => List.Forall₂.imp fun a b => h size larger a b hsize

theorem rel_getD_one {α β : Type} {related : α → β → Prop} {xs : List α} {ys : List β} {a : α}
    {b : β} (h : List.Forall₂ related xs ys) (hdefault : related a b) :
    related (xs.getD 1 a) (ys.getD 1 b) := by
  cases h with
  | nil => exact hdefault
  | cons _ hrest =>
      cases hrest with
      | nil => exact hdefault
      | cons hsecond _ => exact hsecond

theorem rel_getLastD {α β : Type} {related : α → β → Prop} {xs : List α} {ys : List β} {a : α}
    {b : β} (h : List.Forall₂ related xs ys) (hdefault : related a b) :
    related (xs.getLastD a) (ys.getLastD b) := by
  induction h generalizing a b with
  | nil => exact hdefault
  | cons hfirst _ ih =>
      rw [List.getLastD_cons, List.getLastD_cons]
      exact ih hfirst

namespace Comparison

open View (Results)

variable {comparison : Comparison}

structure Worlds (comparison : Comparison) (first second : World) : Prop where
  stores : comparison.stores first.store second.store
  input : first.input = second.input
  output : first.output = second.output

/-- How two computations end in related ways, in worlds with at least so many scopes. -/
inductive Ends {α β : Type} (comparison : Comparison) (size : Nat) (related : Nat → α → β → Prop) :
    EStateM.Result Failure World α → EStateM.Result Failure World β → Prop
  | ok {a : α} {b : β} {first second : World} (hworlds : comparison.Worlds first second)
      (hsize : size ≤ first.store.size) (h : related first.store.size a b) :
      Ends comparison size related (.ok a first) (.ok b second)
  | error {f g : Failure} {first second : World} (hworlds : comparison.Worlds first second)
      (hsize : size ≤ first.store.size) (h : comparison.failures f g) :
      Ends comparison size related (.error f first) (.error g second)
  | escape {result : EStateM.Result Failure World α} {failure : Failure} {next : World}
      (h : comparison.escapes failure) : Ends comparison size related result (.error failure next)

theorem Ends.mono {α β : Type} {size larger : Nat} {related : Nat → α → β → Prop}
    {first : EStateM.Result Failure World α} {second : EStateM.Result Failure World β}
    (h : comparison.Ends larger related first second) (hsize : size ≤ larger) :
    comparison.Ends size related first second := by
  cases h with
  | ok hworlds hlarger h => exact .ok hworlds (Nat.le_trans hsize hlarger) h
  | error hworlds hlarger h => exact .error hworlds (Nat.le_trans hsize hlarger) h
  | escape h => exact .escape h

/-- Whether two computations end in related ways, wherever the worlds are related and have at
least so many scopes. -/
def Agree {α β : Type} (comparison : Comparison) (least : Nat) (first : Eval α) (second : Eval β)
    (related : Nat → α → β → Prop) : Prop :=
  ∀ one two, comparison.Worlds one two → least ≤ one.store.size →
    comparison.Ends one.store.size related (first one) (second two)

/-! ## Composition -/

section Composition

variable {α β γ δ : Type} {least : Nat} {related : Nat → α → β → Prop}

theorem Agree.mono {first : Eval α} {second : Eval β} {more : Nat}
    (h : comparison.Agree least first second related) (hmore : least ≤ more) :
    comparison.Agree more first second related :=
  fun one two hworlds hsize => h one two hworlds (Nat.le_trans hmore hsize)

theorem agree_pure {a : α} {b : β} (hrelated : Lasting related) (h : related least a b) :
    comparison.Agree least (pure a) (pure b) related :=
  fun _ _ hworlds hsize => .ok hworlds (Nat.le_refl _) (hrelated _ _ _ _ hsize h)

theorem agree_throw {f g : Failure} (h : comparison.failures f g) :
    comparison.Agree least (throw f) (throw g) related :=
  fun _ _ hworlds _ => .error hworlds (Nat.le_refl _) h

theorem agree_escape {first : Eval α} {failure : Failure} (h : comparison.escapes failure) :
    comparison.Agree least first (throw failure) related :=
  fun _ _ _ _ => .escape h

theorem agree_bind {first : Eval α} {second : Eval β} {rest : α → Eval γ} {other : β → Eval δ}
    {final : Nat → γ → δ → Prop} (hfirst : comparison.Agree least first second related)
    (hrest : ∀ size a b, least ≤ size → related size a b →
      comparison.Agree size (rest a) (other b) final) :
    comparison.Agree least (first >>= rest) (second >>= other) final := by
  intro one two hworlds hsize
  have hone := hfirst one two hworlds hsize
  rw [Eval.bind_apply, Eval.bind_apply]
  generalize first one = left at hone ⊢
  generalize second two = right at hone ⊢
  cases hone with
  | error hworlds hlarger h => exact .error hworlds hlarger h
  | escape h => exact .escape h
  | ok hnext hlarger h =>
      have hleast := Nat.le_trans hsize hlarger
      exact (hrest _ _ _ hleast h _ _ hnext (Nat.le_refl _)).mono hlarger

theorem agree_mapM {pairs : α → γ → Prop} {f : α → Eval β} {g : γ → Eval δ} {items : List α}
    {others : List γ} {related : Nat → β → δ → Prop} (hrelated : Lasting related)
    (hitems : List.Forall₂ pairs items others)
    (h : ∀ a b, pairs a b → comparison.Agree least (f a) (g b) related) :
    comparison.Agree least (items.mapM f) (others.mapM g)
      fun size => List.Forall₂ (related size) := by
  induction hitems generalizing least with
  | nil => exact agree_pure hrelated.forall₂ .nil
  | @cons a b rest more hfirst _ ih =>
      rw [List.mapM_cons, List.mapM_cons]
      refine agree_bind (h a b hfirst) fun size x y hsize hvalue => ?_
      refine agree_bind (ih fun a b hpair => (h a b hpair).mono hsize) ?_
      intro larger xs ys hlarger hvalues
      refine agree_pure hrelated.forall₂ (.cons ?_ hvalues)
      exact hrelated size larger x y hlarger hvalue

end Composition

/-! ## What is compared of stores -/

/-- Whether the operations of the store respect a comparison, and so do the failures and the
values that no tree determines. -/
structure Lawful (comparison : Comparison) (host other : Host) : Prop where
  lasting : Lasting comparison.values
  sees_mono {size larger : Nat} {id : ScopeId} (h : comparison.sees size id)
    (hlarger : size ≤ larger) : comparison.sees larger id
  null {size : Nat} : comparison.values size .null .null
  string {size : Nat} {line : String} : comparison.values size (.string line) (.string line)
  size {first second : Store} (h : comparison.stores first second) : first.size = second.size
  lookup {first second : Store} {scope : ScopeId} (h : comparison.stores first second)
    (hscope : comparison.sees first.size scope) (name : String) :
    Results (comparison.values first.size) (first.lookup scope name) (second.lookup scope name)
  create {first second : Store} {parent : ScopeId} (h : comparison.stores first second)
    (hparent : comparison.sees first.size parent) :
    comparison.stores (first.create (some parent)) (second.create (some parent)) ∧
      comparison.sees (first.size + 1) first.size
  declare {first second : Store} {scope : ScopeId} {a b : Value}
    (h : comparison.stores first second) (hscope : comparison.sees first.size scope)
    (hvalue : comparison.values first.size a b) (name : String) (constant : Bool) :
    Results comparison.stores (first.declare scope name a constant)
      (second.declare scope name b constant)
  assign {first second : Store} {scope : ScopeId} {a b : Value}
    (h : comparison.stores first second) (hscope : comparison.sees first.size scope)
    (hvalue : comparison.values first.size a b) (name : String) :
    Results comparison.stores (first.assign scope name a) (second.assign scope name b)
  overwrite {first second : Store} {scope : ScopeId} {a b : Value}
    (h : comparison.stores first second) (hscope : comparison.sees first.size scope)
    (hvalue : comparison.values first.size a b) (name : String) :
    comparison.stores (first.overwrite scope name a) (second.overwrite scope name b)
  scope (error : ScopeError) : comparison.failures (.scope error) (.scope error)
  tooDeep : comparison.failures .tooDeep .tooDeep
  ending : comparison.failures host.ending.failure other.ending.failure

open Eval

variable {host other : Host} {least : Nat} {scope : ScopeId} {a b : Value}

theorem agree_runBody {f g : Node → Eval Value} {xs ys : List Node}
    (hlaws : comparison.Lawful host other) (hbody : List.Forall₂ comparison.nodes xs ys)
    (h : ∀ a b, comparison.nodes a b → comparison.Agree least (f a) (g b) comparison.values) :
    comparison.Agree least (runBody f xs) (runBody g ys) comparison.values := by
  rw [runBody_eq_mapM, runBody_eq_mapM]
  refine agree_bind (agree_mapM hlaws.lasting hbody h) fun size xs ys _ hvalues => ?_
  exact agree_pure hlaws.lasting (rel_getLastD hvalues hlaws.null)

theorem agree_lookup (hlaws : comparison.Lawful host other) (hscope : comparison.sees least scope)
    (name : String) :
    comparison.Agree least (ofStore (·.lookup scope name)) (ofStore (·.lookup scope name))
      comparison.values := by
  intro one two hworlds hsize
  have hresults := hlaws.lookup hworlds.stores (hlaws.sees_mono hscope hsize) name
  simp only [ofStore]
  generalize one.store.lookup scope name = left at hresults ⊢
  generalize two.store.lookup scope name = right at hresults ⊢
  cases hresults with
  | ok h => exact .ok hworlds (Nat.le_refl _) h
  | error error => exact .error hworlds (Nat.le_refl _) (hlaws.scope error)

/-- A change of the store agrees when its results are related and remove no scope. -/
theorem agree_changeStore (hlaws : comparison.Lawful host other)
    {change twin : Store → Except ScopeError Store}
    (h : ∀ first second, comparison.stores first second → least ≤ first.size →
      Results comparison.stores (change first) (twin second))
    (hsize : ∀ store after, change store = .ok after → after.size = store.size) :
    comparison.Agree least (changeStore change) (changeStore twin) fun _ _ _ => True := by
  intro one two hworlds hleast
  have hresults := h one.store two.store hworlds.stores hleast
  have hsame := hsize one.store
  simp only [changeStore]
  generalize change one.store = left at hresults hsame ⊢
  generalize twin two.store = right at hresults ⊢
  cases hresults with
  | ok h =>
      exact .ok ⟨h, hworlds.input, hworlds.output⟩ (Nat.le_of_eq (hsame _ rfl).symm) trivial
  | error error => exact .error hworlds (Nat.le_refl _) (hlaws.scope error)

theorem agree_declare (hlaws : comparison.Lawful host other)
    (hscope : comparison.sees least scope) (hvalue : comparison.values least a b) (name : String)
    (constant : Bool) :
    comparison.Agree least (changeStore (·.declare scope name a constant))
      (changeStore (·.declare scope name b constant)) fun _ _ _ => True := by
  refine agree_changeStore hlaws (fun first second hstores hsize => ?_) ?_
  · exact hlaws.declare hstores (hlaws.sees_mono hscope hsize)
      (hlaws.lasting _ _ _ _ hsize hvalue) name constant
  · exact fun _ _ => Store.size_declare

theorem agree_assign (hlaws : comparison.Lawful host other)
    (hscope : comparison.sees least scope) (hvalue : comparison.values least a b)
    (name : String) :
    comparison.Agree least (changeStore (·.assign scope name a))
      (changeStore (·.assign scope name b)) fun _ _ _ => True := by
  refine agree_changeStore hlaws (fun first second hstores hsize => ?_) ?_
  · exact hlaws.assign hstores (hlaws.sees_mono hscope hsize)
      (hlaws.lasting _ _ _ _ hsize hvalue) name
  · exact fun _ _ => Store.size_assign

/-- A new scope has the same number in both runs, and is seen. -/
theorem agree_createScope (hlaws : comparison.Lawful host other)
    (hscope : comparison.sees least scope) :
    comparison.Agree least (createScope scope) (createScope scope) fun size inner twin =>
      inner = twin ∧ comparison.sees size inner := by
  intro one two hworlds hsize
  obtain ⟨hstores, hinner⟩ := hlaws.create hworlds.stores (hlaws.sees_mono hscope hsize)
  have hlarger : (one.store.create (some scope)).size = one.store.size + 1 := Store.size_create ..
  refine .ok ⟨hstores, hworlds.input, hworlds.output⟩ ?_ ⟨hlaws.size hworlds.stores, ?_⟩
  · exact hlarger ▸ Nat.le_succ _
  · exact hlarger ▸ hinner

theorem agree_bindParameters (hlaws : comparison.Lawful host other)
    (hscope : comparison.sees least scope) (names : List String) {xs ys : List Value}
    (h : List.Forall₂ (comparison.values least) xs ys) :
    comparison.Agree least (bindParameters scope names xs) (bindParameters scope names ys)
      fun _ _ _ => True := by
  induction names generalizing least xs ys with
  | nil => exact agree_pure (fun _ _ _ _ _ => id) trivial
  | cons name rest ih =>
      have hhead := rel_headD h hlaws.null
      refine agree_bind (agree_declare hlaws hscope hhead name false) fun size _ _ hsize _ => ?_
      apply ih (hlaws.sees_mono hscope hsize)
      exact hlaws.lasting.forall₂ _ _ _ _ hsize (rel_tail h)

theorem agree_takeLine (hlaws : comparison.Lawful host other) :
    comparison.Agree least (takeLine host) (takeLine other) fun _ line twin => line = twin := by
  intro one two hworlds _
  cases hinput : one.input with
  | cons line rest =>
      rw [takeLine_cons host hinput, takeLine_cons other (hworlds.input ▸ hinput)]
      exact .ok ⟨hworlds.stores, rfl, hworlds.output⟩ (Nat.le_refl _) rfl
  | nil =>
      rw [takeLine_nil host hinput, takeLine_nil other (hworlds.input ▸ hinput)]
      exact .error hworlds (Nat.le_refl _) hlaws.ending

theorem agree_readLine (hlaws : comparison.Lawful host other)
    (hscope : comparison.sees least scope) (name : String) (standalone : Bool) :
    comparison.Agree least (readLine host scope name standalone)
      (readLine other scope name standalone) comparison.values := by
  refine agree_bind (agree_takeLine hlaws) fun size line twin hsize hline => ?_
  subst hline
  cases standalone with
  | false => exact agree_pure hlaws.lasting hlaws.string
  | true =>
      have hstore : comparison.Agree size (storeIfWritable scope name (.string line))
          (storeIfWritable scope name (.string line)) fun _ _ _ => True := by
        intro one two hworlds hlarger
        have hseen := hlaws.sees_mono hscope (Nat.le_trans hsize hlarger)
        have hline : comparison.values one.store.size (.string line) (.string line) := hlaws.string
        have hstores := hlaws.overwrite hworlds.stores hseen hline name
        exact .ok ⟨hstores, hworlds.input, hworlds.output⟩
          (Nat.le_of_eq (Store.size_overwrite ..).symm) trivial
      exact agree_bind hstore fun _ _ _ _ _ => agree_pure hlaws.lasting hlaws.string

theorem agree_writeLine (line : String) :
    comparison.Agree least (writeLine line) (writeLine line) fun _ _ _ => True := by
  intro one two hworlds _
  refine .ok ⟨hworlds.stores, hworlds.input, ?_⟩ (Nat.le_refl _) trivial
  simp only [hworlds.output]

/-! ## Operands and actions -/

/-- Whether two operands are related.  A variable may be read by a node, where it does not
matter that this takes a level of depth. -/
inductive Operands (comparison : Comparison) : Operand → Operand → Prop
  | node {a b : Node} (h : comparison.nodes a b) : Operands comparison (.node a) (.node b)
  | name (key : String) : Operands comparison (.name key) (.name key)
  | fault {cause twin : Fault} (h : comparison.failures (.fault cause) (.fault twin)) :
      Operands comparison (.fault cause) (.fault twin)
  | read {key : String} {position : Position} (h : comparison.escapes .tooDeep) :
      Operands comparison (.name key) (.node (.identifier position key))

/-- Whether two actions are related, in as many scopes as there are then. -/
inductive Actions (comparison : Comparison) (size : Nat) : Action → Action → Prop
  | give {a b : Value} (h : comparison.values size a b) :
      Actions comparison size (.give a) (.give b)
  | fault {cause twin : Fault} (h : comparison.failures (.fault cause) (.fault twin)) :
      Actions comparison size (.fault cause) (.fault twin)
  | refuse {cause twin : OperationCause} {p q : Position}
      (h : comparison.failures (.operation cause p) (.operation twin q)) :
      Actions comparison size (.refuse cause p) (.refuse twin q)
  | declare {name : String} {constant : Bool} {a b : Value} (h : comparison.values size a b) :
      Actions comparison size (.declare name a constant) (.declare name b constant)
  | assign {name : String} {a b : Value} (h : comparison.values size a b) :
      Actions comparison size (.assign name a) (.assign name b)
  | read {name : String} {standalone : Bool} :
      Actions comparison size (.read name standalone) (.read name standalone)
  | write {line : String} : Actions comparison size (.write line) (.write line)
  | enter {home : ScopeId} {parameters : List String} {xs ys : List Value} {body twin : List Node}
      (hhome : comparison.sees size home) (hvalues : List.Forall₂ (comparison.values size) xs ys)
      (hbody : List.Forall₂ comparison.nodes body twin) :
      Actions comparison size (.enter home parameters xs body) (.enter home parameters ys twin)
  | escape {action : Action} {cause : Fault} (h : comparison.escapes (.fault cause)) :
      Actions comparison size action (.fault cause)

theorem actions_ofResult {size : Nat} {result twin : Except OperationCause Value}
    {p q : Position} (h : Results (comparison.values size) result twin)
    (hfailure : ∀ cause, comparison.failures (.operation cause p) (.operation cause q)) :
    comparison.Actions size (.ofResult result p) (.ofResult twin q) := by
  cases h with
  | ok hvalue => exact .give hvalue
  | error cause => exact .refuse (hfailure cause)

/-- Whether related trees ask for related operands and take related actions. -/
structure Covers (comparison : Comparison) (host other : Host) : Prop where
  operands {a b : Node} (h : comparison.nodes a b) :
    List.Forall₂ comparison.Operands a.operands b.operands
  action {a b : Node} {size : Nat} {scope : ScopeId} {xs ys : List Value}
    (h : comparison.nodes a b) (hscope : comparison.sees size scope)
    (hvalues : List.Forall₂ (comparison.values size) xs ys) :
    comparison.Actions size (a.action host scope xs) (b.action other scope ys)

variable {f g : ScopeId → Node → Eval Value}

theorem agree_action (hlaws : comparison.Lawful host other)
    (h : ∀ least scope a b, comparison.sees least scope → comparison.nodes a b →
      comparison.Agree least (f scope a) (g scope b) comparison.values)
    (hscope : comparison.sees least scope) {action twin : Action}
    (haction : comparison.Actions least action twin) :
    comparison.Agree least (action.run host f scope) (twin.run other g scope)
      comparison.values := by
  have hgives : ∀ {a b : Value}, comparison.values least a b → ∀ size (_ _ : Unit), least ≤ size →
      True → comparison.Agree size (pure a) (pure b) comparison.values :=
    fun hvalue _ _ _ hsize _ =>
      agree_pure hlaws.lasting (hlaws.lasting _ _ _ _ hsize hvalue)
  cases haction with
  | give hvalue => exact agree_pure hlaws.lasting hvalue
  | fault hfailure => exact agree_throw hfailure
  | refuse hfailure => exact agree_throw hfailure
  | escape hfailure => exact agree_escape hfailure
  | declare hvalue => exact agree_bind (agree_declare hlaws hscope hvalue _ _) (hgives hvalue)
  | assign hvalue => exact agree_bind (agree_assign hlaws hscope hvalue _) (hgives hvalue)
  | read => exact agree_readLine hlaws hscope _ _
  | write =>
      refine agree_bind (agree_writeLine _) fun _ _ _ _ _ => ?_
      exact agree_pure hlaws.lasting hlaws.null
  | enter hhome hvalues hbody =>
      refine agree_bind (agree_createScope hlaws hhome) fun size inner twin hsize hinner => ?_
      obtain ⟨rfl, hinner⟩ := hinner
      have hgiven := hlaws.lasting.forall₂ _ _ _ _ hsize hvalues
      refine agree_bind (agree_bindParameters hlaws hinner _ hgiven) ?_
      intro larger _ _ hlarger _
      exact agree_runBody hlaws hbody fun a b => h _ _ a b (hlaws.sees_mono hinner hlarger)

/-- Evaluation respects a comparison that the operations of the store respect and the actions of
related trees. -/
theorem agree_evaluate (hlaws : comparison.Lawful host other)
    (hcovers : comparison.Covers host other) (depth : Nat) {a b : Node}
    (hscope : comparison.sees least scope) (h : comparison.nodes a b) :
    comparison.Agree least (evaluate host depth scope a) (evaluate other depth scope b)
      comparison.values := by
  induction depth generalizing least scope a b with
  | zero => exact agree_throw hlaws.tooDeep
  | succ depth ih =>
      rw [evaluate_succ, evaluate_succ]
      have hoperand : ∀ x y, comparison.Operands x y → comparison.Agree least
          (x.run (evaluate host depth scope) scope) (y.run (evaluate other depth scope) scope)
          comparison.values := by
        intro x y hxy
        cases hxy with
        | node hnode => exact ih hscope hnode
        | name key => exact agree_lookup hlaws hscope key
        | fault hfailure => exact agree_throw hfailure
        | read hescape =>
            -- the node takes one level of depth more than the variable alone
            cases depth with
            | zero => exact agree_escape hescape
            | succ depth => exact agree_lookup hlaws hscope _
      refine agree_bind (agree_mapM hlaws.lasting (hcovers.operands h) hoperand) ?_
      intro size xs ys hsize hvalues
      have hseen := hlaws.sees_mono hscope hsize
      exact agree_action hlaws (fun _ _ _ _ => ih) hseen (hcovers.action h hseen hvalues)

end Comparison

end Nomi
