import Nomi.Eval.Session
import Nomi.Proofs.Eval.Actions

/-!
# The moments of a run

Evaluation changes its world in six ways.  The moments of a run are the worlds it
goes through, those of its operands and those of its action one after the other.  They form a
path on which one change follows the other, so whatever every single change
keeps, is kept between any two moments.
-/

namespace Nomi

def Ending.failure : Ending → Failure
  | .cancels => .cancelled
  | .interrupts => .interrupted

inductive Change : World → World → Prop
  | create (world : World) (parent : Option ScopeId) :
      Change world { world with store := world.store.create parent }
  | declare {world : World} {id : ScopeId} {name : String} {value : Value} {constant : Bool}
      {store : Store} (h : world.store.declare id name value constant = .ok store) :
      Change world { world with store }
  | assign {world : World} {id : ScopeId} {name : String} {value : Value} {store : Store}
      (h : world.store.assign id name value = .ok store) : Change world { world with store }
  | overwrite (world : World) (id : ScopeId) (name : String) (value : Value) :
      Change world { world with store := world.store.overwrite id name value }
  | take {world : World} {line : String} {rest : List String} (h : world.input = line :: rest) :
      Change world { world with input := rest }
  | write (world : World) (line : String) :
      Change world { world with output := world.output.push line }

/-- Worlds from a first one to a last one, where each is the one before it or
follows it by one change. -/
inductive Path : World → List World → World → Prop
  | stop (world : World) : Path world [world] world
  | stay {first last : World} {moments : List World} (hmore : Path first moments last) :
      Path first (first :: moments) last
  | step {first second last : World} {moments : List World} (hchange : Change first second)
      (hmore : Path second moments last) : Path first (first :: moments) last

namespace Path

theorem append {first middle last : World} {moments more : List World}
    (hone : Path first moments middle) (htwo : Path middle more last) :
    Path first (moments ++ more) last := by
  induction hone with
  | stop => exact .stay htwo
  | stay _ ih => exact .stay (ih htwo)
  | step hchange _ ih => exact .step hchange (ih htwo)

theorem exists_cons {first last : World} {moments : List World} (h : Path first moments last) :
    ∃ rest, moments = first :: rest := by
  cases h with
  | stop => exact ⟨[], rfl⟩
  | stay | step => exact ⟨_, rfl⟩

theorem last_mem {first last : World} {moments : List World} (h : Path first moments last) :
    last ∈ moments := by
  induction h with
  | stop => exact List.mem_cons_self
  | stay _ ih | step _ _ ih => exact List.mem_cons_of_mem _ ih

/-- What a change keeps, is kept from the first moment on. -/
theorem of_mem (R : World → World → Prop) (hrefl : ∀ world, R world world)
    (htrans : ∀ {first second third}, R first second → R second third → R first third)
    (hchange : ∀ {before after}, Change before after → R before after)
    {first last : World} {moments : List World} (h : Path first moments last) :
    ∀ world ∈ moments, R first world := by
  induction h with
  | stop world =>
      intro other hmem
      rw [List.mem_singleton.1 hmem]
      exact hrefl world
  | stay _ ih =>
      intro other hmem
      rcases List.mem_cons.1 hmem with rfl | hmem
      · exact hrefl _
      · exact ih other hmem
  | step hone _ ih =>
      intro other hmem
      rcases List.mem_cons.1 hmem with rfl | hmem
      · exact hrefl _
      · exact htrans (hchange hone) (ih other hmem)

/-- What a change keeps, is kept between any two moments. -/
theorem pairwise (R : World → World → Prop) (hrefl : ∀ world, R world world)
    (htrans : ∀ {first second third}, R first second → R second third → R first third)
    (hchange : ∀ {before after}, Change before after → R before after)
    {first last : World} {moments : List World} (h : Path first moments last) :
    moments.Pairwise R := by
  induction h with
  | stop world => exact List.pairwise_singleton R world
  | stay hmore ih => exact .cons (hmore.of_mem R hrefl htrans hchange) ih
  | step hone hmore ih =>
      refine .cons (fun world hmem => ?_) ih
      exact htrans (hchange hone) (hmore.of_mem R hrefl htrans hchange world hmem)

end Path

/-! ## Moments of computations -/

namespace Eval

variable {α β γ : Type}

def after (computation : Eval α) (world : World) : World :=
  match computation world with
  | .ok _ next | .error _ next => next

/-- The moments of a computation that makes one change at most. -/
def atOnce (computation : Eval α) (world : World) : List World :=
  [world, after computation world]

def andThen (first : Eval α) (moments : World → List World) (more : α → World → List World)
    (world : World) : List World :=
  moments world ++
    match first world with
    | .ok value next => more value next
    | .error _ _ => []

def inTurn (computation : γ → Eval β) (moments : γ → World → List World) :
    List γ → World → List World
  | [], world => [world]
  | item :: rest, world =>
      andThen (computation item) (moments item) (fun _ => inTurn computation moments rest) world

def bindingMoments (scope : ScopeId) : List String → List Value → World → List World
  | [], _, world => [world]
  | name :: names, values, world =>
      let declaration := changeStore (·.declare scope name (values.headD .null) false)
      andThen declaration (atOnce declaration)
        (fun _ => bindingMoments scope names values.tail) world

def readMoments (host : Host) (scope : ScopeId) (name : String) (standalone : Bool) :
    World → List World :=
  andThen (takeLine host) (atOnce (takeLine host)) fun line =>
    if standalone then atOnce (storeIfWritable scope name (.string line)) else fun world => [world]

def operandMoments (seen : Node → World → List World) : Operand → World → List World
  | .node part => seen part
  | .name _ | .fault _ => fun world => [world]

def actionMoments (host : Host) (visit : ScopeId → Node → Eval Value)
    (seen : ScopeId → Node → World → List World) (scope : ScopeId) :
    Action → World → List World
  | .give _ | .fault _ | .refuse .. => fun world => [world]
  | .declare name value constant => atOnce (changeStore (·.declare scope name value constant))
  | .assign name value => atOnce (changeStore (·.assign scope name value))
  | .read name standalone => readMoments host scope name standalone
  | .write line => atOnce (writeLine line)
  | .enter home parameters values body =>
      andThen (createScope home) (atOnce (createScope home)) fun inner =>
        andThen (bindParameters inner parameters values) (bindingMoments inner parameters values)
          fun _ => inTurn (visit inner) (seen inner) body

end Eval

open Eval in
/-- The moments of the evaluation of a tree: those of the operands, and then those of the
action. -/
def moments (host : Host) : Nat → ScopeId → Node → World → List World
  | 0, _, _ => fun world => [world]
  | depth + 1, scope, node =>
      let visit := evaluate host depth
      let seen := moments host depth
      andThen (operandValues (visit scope) scope node.operands)
        (inTurn (Operand.run (visit scope) scope) (operandMoments (seen scope)) node.operands)
        fun values => actionMoments host visit seen scope (node.action host scope values)

namespace Eval

variable {α β γ : Type}

/-- Whether the moments of a computation lead from each world to the one that the
computation leaves. -/
def Traces (moments : World → List World) (computation : Eval α) : Prop :=
  ∀ world, Path world (moments world) (after computation world)

def Still (computation : Eval α) : Prop :=
  ∀ world, after computation world = world

theorem still_pure (value : α) : Still (pure value : Eval α) := fun _ => rfl

theorem still_throw (failure : Failure) : Still (throw failure : Eval α) := fun _ => rfl

theorem still_ofStore (reading : Store → Except ScopeError α) : Still (ofStore reading) := by
  intro world
  simp only [after, ofStore]
  cases reading world.store <;> rfl

theorem Still.traces {computation : Eval α} (h : Still computation) :
    Traces (fun world => [world]) computation := by
  intro world
  rw [h world]
  exact .stop world

theorem after_bind (first : Eval α) (rest : α → Eval β) (world : World) :
    after (first >>= rest) world =
      match first world with
      | .ok value next => after (rest value) next
      | .error _ next => next := by
  simp only [after, bind_apply]
  cases first world <;> rfl

theorem traces_bind {first : Eval α} {rest : α → Eval β} {moments : World → List World}
    {more : α → World → List World} (hfirst : Traces moments first)
    (hrest : ∀ value, Traces (more value) (rest value)) :
    Traces (andThen first moments more) (first >>= rest) := by
  intro world
  have hone := hfirst world
  rw [after_bind]
  simp only [andThen, after] at hone ⊢
  cases hresult : first world with
  | ok value next =>
      rw [hresult] at hone
      exact hone.append (hrest value next)
  | error failure next =>
      rw [hresult] at hone
      simpa using hone

/-- What leaves the world as it is adds no moments. -/
theorem Traces.bind_still {first : Eval α} {rest : α → Eval β} {moments : World → List World}
    (hfirst : Traces moments first) (hrest : ∀ value, Still (rest value)) :
    Traces moments (first >>= rest) := by
  intro world
  have hone := hfirst world
  have hafter : after (first >>= rest) world = after first world := by
    rw [after_bind]
    simp only [after]
    cases first world with
    | ok value next => exact hrest value next
    | error failure next => rfl
  rwa [hafter]

theorem traces_atOnce {computation : Eval α}
    (h : ∀ world, after computation world = world ∨ Change world (after computation world)) :
    Traces (atOnce computation) computation := by
  intro world
  rcases h world with hsame | hchange
  · simp only [atOnce, hsame]
    exact .stay (.stop world)
  · exact .step hchange (.stop _)

theorem traces_mapM {f : γ → Eval β} {moments : γ → World → List World} (items : List γ)
    (h : ∀ item, Traces (moments item) (f item)) :
    Traces (inTurn f moments items) (items.mapM f) := by
  induction items with
  | nil => exact (still_pure []).traces
  | cons item rest ih =>
      rw [List.mapM_cons]
      exact traces_bind (h item) fun value => ih.bind_still fun values => still_pure _

theorem traces_runBody {statement : Node → Eval Value} {moments : Node → World → List World}
    (body : List Node) (h : ∀ node, Traces (moments node) (statement node)) :
    Traces (inTurn statement moments body) (runBody statement body) := by
  rw [runBody_eq_mapM]
  exact (traces_mapM body h).bind_still fun values => still_pure _

/-! ## Parts of evaluation -/

theorem traces_changeStore {change : Store → Except ScopeError Store}
    (h : ∀ world store, change world.store = .ok store → Change world { world with store }) :
    Traces (atOnce (changeStore change)) (changeStore change) := by
  apply traces_atOnce
  intro world
  simp only [after, changeStore]
  cases hresult : change world.store with
  | ok store => exact .inr (h world store hresult)
  | error error => exact .inl rfl

theorem traces_declare (scope : ScopeId) (name : String) (value : Value) (constant : Bool) :
    Traces (atOnce (changeStore (·.declare scope name value constant)))
      (changeStore (·.declare scope name value constant)) :=
  traces_changeStore fun _ _ h => .declare h

theorem traces_assign (scope : ScopeId) (name : String) (value : Value) :
    Traces (atOnce (changeStore (·.assign scope name value)))
      (changeStore (·.assign scope name value)) :=
  traces_changeStore fun _ _ h => .assign h

theorem traces_createScope (parent : ScopeId) :
    Traces (atOnce (createScope parent)) (createScope parent) :=
  traces_atOnce fun world => .inr (.create world (some parent))

theorem traces_bindParameters (scope : ScopeId) (names : List String) (values : List Value) :
    Traces (bindingMoments scope names values) (bindParameters scope names values) := by
  induction names generalizing values with
  | nil => exact (still_pure ()).traces
  | cons name rest ih =>
      exact traces_bind (traces_declare scope name (values.headD .null) false) fun _ => ih _

theorem takeLine_nil (host : Host) {world : World} (h : world.input = []) :
    takeLine host world = .error host.ending.failure world := by
  simp only [takeLine, h]
  cases host.ending <;> rfl

theorem takeLine_cons (host : Host) {world : World} {line : String} {rest : List String}
    (h : world.input = line :: rest) :
    takeLine host world = .ok line { world with input := rest } := by
  simp only [takeLine, h]

theorem traces_takeLine (host : Host) : Traces (atOnce (takeLine host)) (takeLine host) := by
  apply traces_atOnce
  intro world
  cases hinput : world.input with
  | cons line rest =>
      rw [after, takeLine_cons host hinput]
      exact .inr (.take hinput)
  | nil =>
      rw [after, takeLine_nil host hinput]
      exact .inl rfl

theorem traces_readLine (host : Host) (scope : ScopeId) (name : String) (standalone : Bool) :
    Traces (readMoments host scope name standalone) (readLine host scope name standalone) := by
  apply traces_bind (traces_takeLine host)
  intro line
  cases standalone with
  | false => exact (still_pure _).traces
  | true =>
      have hstore : Traces (atOnce (storeIfWritable scope name (.string line)))
          (storeIfWritable scope name (.string line)) :=
        traces_atOnce fun world => .inr (.overwrite world scope name (.string line))
      exact hstore.bind_still fun _ => still_pure _

theorem traces_writeLine (line : String) : Traces (atOnce (writeLine line)) (writeLine line) :=
  traces_atOnce fun world => .inr (.write world line)

section

variable {visit : ScopeId → Node → Eval Value} {seen : ScopeId → Node → World → List World}

theorem traces_operand (h : ∀ scope node, Traces (seen scope node) (visit scope node))
    (scope : ScopeId) (operand : Operand) :
    Traces (operandMoments (seen scope) operand) (operand.run (visit scope) scope) := by
  cases operand with
  | node part => exact h scope part
  | name key => exact (still_ofStore (·.lookup scope key)).traces
  | fault cause => exact (still_throw _).traces

theorem traces_action (host : Host)
    (h : ∀ scope node, Traces (seen scope node) (visit scope node)) (scope : ScopeId)
    (action : Action) :
    Traces (actionMoments host visit seen scope action) (action.run host visit scope) := by
  cases action with
  | give value => exact (still_pure value).traces
  | fault cause => exact (still_throw _).traces
  | refuse cause position => exact (still_throw _).traces
  | declare name value constant =>
      exact (traces_declare scope name value constant).bind_still fun _ => still_pure value
  | assign name value => exact (traces_assign scope name value).bind_still fun _ => still_pure value
  | read name standalone => exact traces_readLine host scope name standalone
  | write line => exact (traces_writeLine line).bind_still fun _ => still_pure _
  | enter home parameters values body =>
      simp only [actionMoments, Action.run]
      refine traces_bind (traces_createScope home) fun inner => ?_
      refine traces_bind (traces_bindParameters inner parameters values) fun _ => ?_
      exact traces_runBody body (h inner)

end

/-- The moments of an evaluation lead from its world to the one it leaves. -/
theorem traces_evaluate (host : Host) (depth : Nat) (scope : ScopeId) (node : Node) :
    Traces (moments host depth scope node) (evaluate host depth scope node) := by
  induction depth generalizing scope node with
  | zero => exact (still_throw _).traces
  | succ depth ih =>
      rw [evaluate_succ]
      apply traces_bind (traces_mapM node.operands (traces_operand ih scope))
      intro values
      exact traces_action host ih scope (node.action host scope values)

end Eval

end Nomi
