import Nomi.Proofs.Eval.Growth

/-!
# Runs that are cut off

A run may end because the lines of input or the depth that it is given do not suffice.
A second run that is given more does the same as long as the first one goes on, and if
the first is cut off, the second goes on from there.  If it is not, both end alike, and
the lines that the second has more are left.
-/

namespace Nomi

def World.feed (world : World) (more : List String) : World :=
  { world with input := world.input ++ more }

theorem World.feed_nil (world : World) : world.feed [] = world := by
  simp [feed]

namespace Eval

variable {α β γ : Type} {host : Host} {cut : Failure → Prop} {more : List String}

theorem Traces.onward {computation : Eval α} {moments : World → List World}
    (h : Traces moments computation) (world : World) : world.Onward (after computation world) :=
  (h world).onward _ (h world).last_mem

/-- Whether a second computation, from a world with more lines, does what a first one
does, or the first is cut off and the second goes on.  A read fails only when all lines
are taken. -/
structure Continues (host : Host) (cut : Failure → Prop) (more : List String)
    (first second : Eval α) : Prop where
  onward : ∀ world : World, world.Onward (after second world)
  ok : ∀ world value next, first world = .ok value next →
    second (world.feed more) = .ok value (next.feed more)
  error : ∀ world failure next, first world = .error failure next →
    (failure = host.ending.failure → next.input = []) ∧
      (second (world.feed more) = .error failure (next.feed more) ∨
        cut failure ∧ (next.feed more).Onward (after second (world.feed more)))

/-- A computation that does not look at the input continues as itself. -/
theorem continues_self {computation : Eval α}
    (honward : ∀ world : World, world.Onward (after computation world))
    (hok : ∀ world value next, computation world = .ok value next →
      computation (world.feed more) = .ok value (next.feed more))
    (herror : ∀ world failure next, computation world = .error failure next →
      failure ≠ host.ending.failure ∧
        computation (world.feed more) = .error failure (next.feed more)) :
    Continues host cut more computation computation where
  onward := honward
  ok := hok
  error := fun world failure next h =>
    ⟨fun hending => absurd hending (herror world failure next h).1,
      .inl (herror world failure next h).2⟩

theorem continues_pure (value : α) : Continues host cut more (pure value) (pure value) := by
  refine continues_self (fun world => .refl world) ?_ ?_
  · rintro world value next ⟨⟩
    rfl
  · rintro world failure next ⟨⟩

theorem continues_throw {failure : Failure} (h : failure ≠ host.ending.failure) :
    Continues host cut more (throw failure : Eval α) (throw failure) := by
  refine continues_self (fun world => .refl world) ?_ ?_
  · rintro world value next ⟨⟩
  · rintro world failure next ⟨⟩
    exact ⟨h, rfl⟩

/-- A computation that is cut off at once may be continued by any other. -/
theorem continues_cut {failure : Failure} {second : Eval α} (h : failure ≠ host.ending.failure)
    (hcut : cut failure) (honward : ∀ world : World, world.Onward (after second world)) :
    Continues host cut more (throw failure) second := by
  refine ⟨honward, ?_, ?_⟩
  · rintro world value next ⟨⟩
  · rintro world failure next ⟨⟩
    exact ⟨fun hending => absurd hending h, .inr ⟨hcut, honward _⟩⟩

/-- What is done after a computation is done after its world. -/
theorem onward_bind {second : Eval α} {other : α → Eval β}
    (h : ∀ value, ∀ world : World, world.Onward (after (other value) world)) (world : World) :
    (after second world).Onward (after (second >>= other) world) := by
  rw [after_bind]
  simp only [after]
  cases second world with
  | ok value next => exact h value next
  | error failure next => exact .refl next

theorem continues_bind {first second : Eval α} {rest other : α → Eval β}
    (hfirst : Continues host cut more first second)
    (hrest : ∀ value, Continues host cut more (rest value) (other value)) :
    Continues host cut more (first >>= rest) (second >>= other) := by
  have honward : ∀ world, (after second world).Onward (after (second >>= other) world) :=
    onward_bind fun value => (hrest value).onward
  refine ⟨fun world => (hfirst.onward world).trans (honward world), ?_, ?_⟩
  · intro world result next h
    obtain ⟨value, middle, hone, htwo⟩ := bind_ok h
    rw [bind_apply, hfirst.ok _ _ _ hone]
    exact (hrest value).ok _ _ _ htwo
  · intro world failure next h
    rcases bind_error h with hone | ⟨value, middle, hone, htwo⟩
    · obtain ⟨hspent, hsame | ⟨hcut, hcontinued⟩⟩ := hfirst.error _ _ _ hone
      · refine ⟨hspent, .inl ?_⟩
        rw [bind_apply, hsame]
      · exact ⟨hspent, .inr ⟨hcut, hcontinued.trans (honward _)⟩⟩
    · have hmiddle := hfirst.ok _ _ _ hone
      have hboth : after (second >>= other) (world.feed more) =
          after (other value) (middle.feed more) := by
        rw [after_bind, hmiddle]
      rw [hboth, bind_apply, hmiddle]
      exact (hrest value).error _ _ _ htwo

theorem continues_mapM {f g : γ → Eval β} (items : List γ)
    (h : ∀ item, Continues host cut more (f item) (g item)) :
    Continues host cut more (items.mapM f) (items.mapM g) := by
  induction items with
  | nil => exact continues_pure []
  | cons item rest ih =>
      rw [List.mapM_cons, List.mapM_cons]
      apply continues_bind (h item)
      intro value
      exact continues_bind ih fun values => continues_pure _

theorem continues_runBody {f g : Node → Eval Value} (body : List Node)
    (h : ∀ node, Continues host cut more (f node) (g node)) :
    Continues host cut more (runBody f body) (runBody g body) := by
  rw [runBody_eq_mapM, runBody_eq_mapM]
  exact continues_bind (continues_mapM body h) fun values => continues_pure _

/-! ## Parts of evaluation -/

/-- Nothing but a read fails as reads do at the end of the input. -/
theorem ne_ending {failure : Failure} (hcancelled : failure ≠ .cancelled)
    (hinterrupted : failure ≠ .interrupted) : failure ≠ host.ending.failure := by
  cases host.ending with
  | cancels => exact hcancelled
  | interrupts => exact hinterrupted

theorem continues_ofStore (reading : Store → Except ScopeError α) :
    Continues host cut more (ofStore reading) (ofStore reading) := by
  refine continues_self (still_ofStore reading).traces.onward ?_ ?_
  · intro world value next h
    simp only [ofStore] at h ⊢
    cases hreading : reading world.store with
    | ok result =>
        rw [hreading] at h
        cases h
        simp only [World.feed, hreading]
    | error error =>
        rw [hreading] at h
        contradiction
  · intro world failure next h
    simp only [ofStore] at h ⊢
    cases hreading : reading world.store with
    | ok result =>
        rw [hreading] at h
        contradiction
    | error error =>
        rw [hreading] at h
        cases h
        exact ⟨ne_ending (by simp) (by simp), by simp only [World.feed, hreading]⟩

theorem continues_changeStore {change : Store → Except ScopeError Store}
    {moments : World → List World} (htraces : Traces moments (changeStore change)) :
    Continues host cut more (changeStore change) (changeStore change) := by
  refine continues_self htraces.onward ?_ ?_
  · intro world value next h
    obtain ⟨store, hstore, rfl⟩ := changeStore_ok h
    simp only [changeStore, World.feed, hstore]
  · intro world failure next h
    simp only [changeStore] at h ⊢
    cases hchange : change world.store with
    | ok store =>
        rw [hchange] at h
        contradiction
    | error error =>
        rw [hchange] at h
        cases h
        exact ⟨ne_ending (by simp) (by simp), by simp only [World.feed, hchange]⟩

theorem continues_fault (fault : Fault) :
    Continues host cut more (throw (.fault fault) : Eval α) (throw (.fault fault)) :=
  continues_throw (ne_ending (by simp) (by simp))

theorem continues_createScope (parent : ScopeId) :
    Continues host cut more (createScope parent) (createScope parent) := by
  refine continues_self (traces_createScope parent).onward ?_ ?_
  · rintro world value next ⟨⟩
    rfl
  · rintro world failure next ⟨⟩

theorem continues_declare (scope : ScopeId) (name : String) (value : Value) (constant : Bool) :
    Continues host cut more (changeStore (·.declare scope name value constant))
      (changeStore (·.declare scope name value constant)) :=
  continues_changeStore (traces_declare scope name value constant)

theorem continues_bindParameters (scope : ScopeId) (names : List String) (values : List Value) :
    Continues host cut more (bindParameters scope names values)
      (bindParameters scope names values) := by
  induction names generalizing values with
  | nil => exact continues_pure ()
  | cons name rest ih => exact continues_bind (continues_declare _ _ _ _) fun _ => ih _

/-- A read is where more lines make a difference, if there are any. -/
theorem continues_takeLine (hinput : more = [] ∨ cut host.ending.failure) :
    Continues host cut more (takeLine host) (takeLine host) := by
  have honward := (traces_takeLine host).onward
  refine ⟨honward, ?_, ?_⟩
  · intro world value next h
    cases hworld : world.input with
    | nil =>
        rw [takeLine_nil host hworld] at h
        contradiction
    | cons line rest =>
        rw [takeLine_cons host hworld] at h
        cases h
        exact takeLine_cons host (by simp only [World.feed, hworld, List.cons_append])
  · intro world failure next h
    cases hworld : world.input with
    | cons line rest =>
        rw [takeLine_cons host hworld] at h
        contradiction
    | nil =>
        rw [takeLine_nil host hworld] at h
        cases h
        refine ⟨fun _ => hworld, ?_⟩
        rcases hinput with rfl | hcut
        · rw [World.feed_nil]
          exact .inl (takeLine_nil host hworld)
        · exact .inr ⟨hcut, honward _⟩

theorem continues_readLine (hinput : more = [] ∨ cut host.ending.failure) (scope : ScopeId)
    (name : String) (standalone : Bool) :
    Continues host cut more (readLine host scope name standalone)
      (readLine host scope name standalone) := by
  apply continues_bind (continues_takeLine hinput)
  intro line
  cases standalone with
  | false => exact continues_pure _
  | true =>
      have hstore : Continues host cut more (storeIfWritable scope name (.string line))
          (storeIfWritable scope name (.string line)) := by
        refine continues_self (fun world => (Change.overwrite world scope name _).onward) ?_ ?_
        · rintro world value next ⟨⟩
          rfl
        · rintro world failure next ⟨⟩
      exact continues_bind hstore fun _ => continues_pure _

theorem continues_writeLine (line : String) :
    Continues host cut more (writeLine line) (writeLine line) := by
  refine continues_self (fun world => (Change.write world line).onward) ?_ ?_
  · rintro world value next ⟨⟩
    rfl
  · rintro world failure next ⟨⟩

section

variable {f g : ScopeId → Node → Eval Value}
  (h : ∀ scope node, Continues host cut more (f scope node) (g scope node))

include h

theorem continues_operand (scope : ScopeId) (operand : Operand) :
    Continues host cut more (operand.run (f scope) scope) (operand.run (g scope) scope) := by
  cases operand with
  | node part => exact h scope part
  | name key => exact continues_ofStore (·.lookup scope key)
  | fault cause => exact continues_fault cause

theorem continues_action (hinput : more = [] ∨ cut host.ending.failure) (scope : ScopeId)
    (action : Action) :
    Continues host cut more (action.run host f scope) (action.run host g scope) := by
  cases action with
  | give value => exact continues_pure value
  | fault cause => exact continues_fault cause
  | refuse cause position => exact continues_throw (ne_ending (by simp) (by simp))
  | declare name value constant =>
      exact continues_bind (continues_declare _ _ _ _) fun _ => continues_pure value
  | assign name value =>
      apply continues_bind (continues_changeStore (traces_assign scope name value))
      exact fun _ => continues_pure value
  | read name standalone => exact continues_readLine hinput scope name standalone
  | write line => exact continues_bind (continues_writeLine line) fun _ => continues_pure _
  | enter home parameters values body =>
      simp only [Action.run]
      apply continues_bind (continues_createScope home)
      intro inner
      apply continues_bind (continues_bindParameters inner parameters values)
      intro _
      exact continues_runBody body (h inner)

end

/-- Evaluation with more lines or more depth continues evaluation with fewer, where it is
cut off for want of them. -/
theorem continues_evaluate {depth deep : Nat} (hinput : more = [] ∨ cut host.ending.failure)
    (hdepth : depth = deep ∨ depth ≤ deep ∧ cut .tooDeep) (scope : ScopeId) (node : Node) :
    Continues host cut more (evaluate host depth scope node) (evaluate host deep scope node) := by
  have htooDeep : Failure.tooDeep ≠ host.ending.failure := ne_ending (by simp) (by simp)
  -- both depths go down together, so that the deeper run has a level wherever the other has
  induction depth generalizing deep scope node with
  | zero =>
      rcases hdepth with rfl | ⟨_, hcut⟩
      · exact continues_throw htooDeep
      · exact continues_cut htooDeep hcut (traces_evaluate host deep scope node).onward
  | succ depth ih =>
      obtain ⟨deep, rfl, hless⟩ : ∃ less, deep = less + 1 ∧
          (depth = less ∨ depth ≤ less ∧ cut .tooDeep) := by
        rcases hdepth with rfl | ⟨hle, hcut⟩
        · exact ⟨depth, rfl, .inl rfl⟩
        · exact ⟨deep - 1, by omega, .inr ⟨by omega, hcut⟩⟩
      replace ih := fun scope node => ih hless scope node
      rw [evaluate_succ, evaluate_succ]
      apply continues_bind (continues_mapM node.operands (continues_operand ih scope))
      intro values
      exact continues_action ih hinput scope (node.action host scope values)

/-! ## Outcomes -/

section

variable {first second : Eval Value} {world : World}

theorem outcome_ok {value : Value} {next : World} (h : first world = .ok value next) :
    first.outcome world = (.ok value, next) := by
  simp only [outcome, h]

theorem outcome_error {failure : Failure} {next : World} (h : first world = .error failure next) :
    first.outcome world = (.error failure, next) := by
  simp only [outcome, h]

theorem outcome_world (computation : Eval Value) (world : World) :
    (computation.outcome world).2 = after computation world := by
  simp only [outcome, after]
  cases computation world <;> rfl

/-- A run that is not cut off ends as one that is given more, which leaves the rest. -/
theorem Continues.outcome_eq (h : Continues host cut more first second)
    (hcut : ∀ failure, (first.outcome world).1 = .error failure → ¬ cut failure) :
    second.outcome (world.feed more) =
      ((first.outcome world).1, (first.outcome world).2.feed more) := by
  cases hfirst : first world with
  | ok value next =>
      rw [outcome_ok hfirst, outcome_ok (h.ok _ _ _ hfirst)]
  | error failure next =>
      rw [outcome_error hfirst] at hcut ⊢
      rcases (h.error _ _ _ hfirst).2 with hsame | ⟨hfailure, _⟩
      · rw [outcome_error hsame]
      · exact absurd hfailure (hcut failure rfl)

/-- What is given more goes on from where a failed run ends. -/
theorem Continues.outcome_onward (h : Continues host cut more first second) {failure : Failure}
    (hfailure : (first.outcome world).1 = .error failure) :
    ((first.outcome world).2.feed more).Onward (second.outcome (world.feed more)).2 := by
  cases hfirst : first world with
  | ok value next =>
      rw [outcome_ok hfirst] at hfailure
      contradiction
  | error failure next =>
      rw [outcome_error hfirst, outcome_world]
      rcases (h.error _ _ _ hfirst).2 with hsame | ⟨_, honward⟩
      · simp only [after, hsame]
        exact .refl _
      · exact honward

/-- A run that fails at the end of the input has taken all lines. -/
theorem Continues.outcome_spent (h : Continues host cut more first second)
    (hfailure : (first.outcome world).1 = .error host.ending.failure) :
    (first.outcome world).2.input = [] := by
  cases hfirst : first world with
  | ok value next =>
      rw [outcome_ok hfirst] at hfailure
      contradiction
  | error failure next =>
      rw [outcome_error hfirst] at hfailure ⊢
      exact (h.error _ _ _ hfirst).1 (Except.error.inj hfailure)

end

end Eval

/-- A step that ends for want of input leaves no lines. -/
theorem step_spent {host : Host} {source : String} {world : World}
    (h : (step host source world).1 = .error host.ending.failure) :
    (step host source world).2.input = [] := by
  unfold step at h ⊢
  cases hparse : parse source with
  | error error =>
      rw [hparse] at h
      exact absurd (Except.error.inj h) (Eval.ne_ending (by simp) (by simp))
  | ok program =>
      rw [hparse] at h
      let cut : Failure → Prop := fun _ => False
      have hruns : Eval.Continues host cut [] (evaluate host depthLimit Store.globalId program)
          (evaluate host depthLimit Store.globalId program) :=
        Eval.continues_evaluate (.inl rfl) (.inl rfl) Store.globalId program
      exact hruns.outcome_spent h

open Eval in
/--
Input is taken on demand.

A run that does not end at the end of its input ends in the same way when there are more
lines: with the same value or failure, the same output and the same store, and the further
lines are left behind those that were left before.  A run that ends there has taken all of
its lines, and with more of them it goes on writing behind what it wrote.  Whatever it is
given, a run leaves the last of its lines and keeps what was written.
-/
theorem input_on_demand (host : Host) (depth : Nat) (scope : ScopeId) (node : Node)
    (world : World) (more : List String) :
    let run := evaluate host depth scope node
    let one := run.outcome world
    let two := run.outcome (world.feed more)
    (one.1 ≠ .error host.ending.failure → two = (one.1, one.2.feed more)) ∧
      (one.1 = .error host.ending.failure → one.2.input = [] ∧ one.2.Wrote two.2) ∧
        world.Onward one.2 := by
  intro run one two
  let cut : Failure → Prop := fun failure => failure = host.ending.failure
  have hcut : cut host.ending.failure := rfl
  have hruns : Continues host cut more run run :=
    continues_evaluate (.inr hcut) (.inl rfl) scope node
  refine ⟨fun hgoes => ?_, fun hends => ?_, ?_⟩
  · apply hruns.outcome_eq
    rintro failure hfailure rfl
    exact hgoes hfailure
  · exact ⟨hruns.outcome_spent hends, (hruns.outcome_onward hends).output⟩
  · have honward := hruns.onward world
    rwa [← outcome_world] at honward

open Eval in
/--
The limit of depth only cuts off.

A run that stays within its limit ends in the same way within every higher one: with the
same value or failure, the same output, the same lines left and the same store.  A run that
exceeds its limit leaves the work that a run within a higher one goes on from: its output
comes first there, and the lines that are left there are the last of those that it left.
-/
theorem deeper_limit (host : Host) {depth deep : Nat} (h : depth ≤ deep) (scope : ScopeId)
    (node : Node) (world : World) :
    let one := (evaluate host depth scope node).outcome world
    let two := (evaluate host deep scope node).outcome world
    (one.1 ≠ .error .tooDeep → two = one) ∧ (one.1 = .error .tooDeep → one.2.Onward two.2) := by
  intro one two
  let cut : Failure → Prop := fun failure => failure = .tooDeep
  have hcut : cut .tooDeep := rfl
  have hruns : Continues host cut [] (evaluate host depth scope node)
      (evaluate host deep scope node) :=
    continues_evaluate (.inl rfl) (.inr ⟨h, hcut⟩) scope node
  refine ⟨fun hwithin => ?_, fun hexceeds => ?_⟩
  · have hgoes : ∀ failure, one.1 = .error failure → ¬ cut failure := by
      rintro failure hfailure rfl
      exact hwithin hfailure
    have hsame := hruns.outcome_eq hgoes
    rw [World.feed_nil, World.feed_nil] at hsame
    exact hsame
  · have honward := hruns.outcome_onward hexceeds
    rw [World.feed_nil, World.feed_nil] at honward
    exact honward

/-- A function that prints and calls itself, run for two and for three levels more. -/
theorem deeper_limit_endless :
    let host : Host := ⟨0, .cancels⟩
    let call (name : String) (values : List Node) : Node :=
      .call .start (.identifier .start name) values
    let node : Node := .program .start
      [.function .start "f" [] [call "print" [.string .start "a"], call "f" []], call "f" []]
    let one := (evaluate host 4 Store.globalId node).outcome (.initial [])
    let two := (evaluate host 5 Store.globalId node).outcome (.initial [])
    4 ≤ 5 ∧ one.1 = .error .tooDeep ∧ one.2.output = #["a"] ∧ two.2.output = #["a", "a"] ∧
      one.2.Onward two.2 := by
  intro host call node one two
  have hone : one.1 = .error .tooDeep := by with_unfolding_all rfl
  refine ⟨by decide, hone, by with_unfolding_all rfl, by with_unfolding_all rfl, ?_⟩
  exact (deeper_limit host (by decide) Store.globalId node (.initial [])).2 hone

end Nomi
