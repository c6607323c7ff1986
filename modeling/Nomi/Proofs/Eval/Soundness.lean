import Nomi.Eval.Session
import Nomi.Proofs.Eval.Keeping
import Nomi.Proofs.Eval.Values

/-!
# How runs end

A store is sound when all its values are.  Evaluation of an evaluable tree keeps
the store sound, gives a sound value, and fails with what is foreseen only: the
errors of the language, the end of the input and the limit of depth.
-/

namespace Nomi

def Scope.Sound (scope : Scope) : Prop :=
  ∀ entry ∈ scope.values, entry.2.isSound = true

namespace Store

def Sound (store : Store) : Prop :=
  ∀ id scope, store.scope? id = some scope → scope.Sound

theorem sound_iff {store : Store} : store.Sound ↔ store.Every (Value.isSound · = true) :=
  Iff.rfl

theorem sound_initial : initial.Sound :=
  sound_iff.2 (every_initial (by decide))

end Store

/-- How the run of a program may fail: not for a numeral that is none, nor for a
name without a value, nor for an operation outside its domain, and not by a
fault. -/
def Failure.Foreseen (host : Host) : Failure → Prop
  | .source (.lexical _) => True
  | .source (.syntactic error) => ∀ lexeme, error.cause ≠ .notANumeral lexeme
  | .scope error => ∀ name, error ≠ .missing name
  | .operation cause _ => cause.isForeseen = true
  | .cancelled => host.ending = .cancels
  | .interrupted => host.ending = .interrupts
  | .tooDeep => True
  | .fault _ => False

def Invariant.sound (host : Host) : Invariant :=
  .ofValues (Value.isSound · = true) (Failure.Foreseen host)

theorem lawful_sound (host : Host) : (Invariant.sound host).Lawful host := by
  apply Invariant.lawful_ofValues
  · intro value hvalue
    cases value <;> first | rfl | contradiction
  · exact Value.areSound_iff
  · exact Value.areSoundFields_iff
  · exact fun _ => nofun
  · exact fun _ => nofun
  · exact fun _ => nofun
  · cases hending : host.ending with
    | cancels | interrupts => exact hending

variable {host : Host} {scope : ScopeId} {node : Node} {values : List Value} {failure : Failure}

theorem foreseen_ofResult {result : Except OperationCause Value} {position : Position}
    (h : Provided result)
    (hfailure : (Action.ofResult result position).failure? = some failure) :
    failure.Foreseen host := by
  cases result with
  | ok value => contradiction
  | error cause =>
      cases hfailure
      exact h cause rfl

/-- Functions that programs find are built in, and values that they make have a text. -/
theorem foreseen_ofCall {function : Value} {position : Position}
    (h : function.isSound = true) (hvalues : ∀ value ∈ values, value.isSound = true)
    (hfailure : (Action.ofCall host position function values).failure? = some failure) :
    failure.Foreseen host := by
  cases function with
  | function => contradiction
  | builtin function =>
      cases function with
      | other => contradiction
      | time => contradiction
      | print =>
          obtain ⟨texts, htexts⟩ := Value.exists_texts hvalues
          simp only [Action.ofCall, htexts, Action.failure?] at hfailure
          contradiction
  | _ =>
      cases hfailure
      rfl

theorem foreseen_action (h : node.isEvaluable = true)
    (hvalues : ∀ value ∈ values, value.isSound = true)
    (hfailure : (node.action host scope values).failure? = some failure) :
    failure.Foreseen host := by
  have hhead : (values.headD .null).isSound = true := by
    cases values with
    | nil => rfl
    | cons value rest => exact hvalues value List.mem_cons_self
  cases node with
  | assignment position target value =>
      cases target with
      | identifier => contradiction
      | _ =>
          cases hfailure
          rfl
  | binary position operator left right =>
      simp only [Node.isEvaluable, Bool.and_eq_true] at h
      exact foreseen_ofResult (provided_apply h.1.1 _ _) hfailure
  | member position owner key computed =>
      cases computed with
      | true => exact foreseen_ofResult (provided_index _ _) hfailure
      | false =>
          cases key with
          | identifier => exact foreseen_ofResult (provided_property _ _) hfailure
          | _ => simp [Node.isEvaluable, Node.isIdentifier] at h
  | call position callee arguments =>
      exact foreseen_ofCall hhead (fun value hmem => hvalues value (List.mem_of_mem_tail hmem))
        hfailure
  | _ => contradiction

/-- What is evaluated for an entry can be evaluated. -/
theorem admits_entry {properties : List Node} (h : Node.areEntries properties = true) :
    ∀ operand ∈ properties.flatMap Operand.ofEntry,
      (Invariant.sound host).Admits (·.isEvaluable = true) operand := by
  induction properties with
  | nil => exact List.forall_mem_nil _
  | cons first rest ih =>
      cases first with
      | property position key value =>
          simp only [Node.areEntries, Bool.and_eq_true, Bool.or_eq_true] at h
          intro operand hmem
          rcases List.mem_append.1 hmem with hfirst | hrest
          · rcases Operand.mem_ofEntry_property hfirst with rfl | ⟨rfl, hpresent⟩
            · trivial
            · exact h.1.resolve_left (by simp [hpresent])
          · exact ih h.2 operand hrest
      | _ => contradiction

theorem admits_nodes {nodes : List Node} (h : Node.isEvaluableAll nodes = true) :
    ∀ operand ∈ nodes.map .node, (Invariant.sound host).Admits (·.isEvaluable = true) operand := by
  rw [Node.isEvaluableAll_eq_all] at h
  exact List.forall_mem_map.2 (List.all_eq_true.1 h)

theorem admits_operands (h : node.isEvaluable = true) :
    ∀ operand ∈ node.operands,
      (Invariant.sound host).Admits (·.isEvaluable = true) operand := by
  cases node with
  | identifier => simp [Node.operands, Invariant.Admits]
  | array position nodes | program position nodes => exact admits_nodes h
  | object position properties => exact admits_entry h
  | call position callee arguments =>
      simp only [Node.isEvaluable, Bool.and_eq_true] at h
      exact List.forall_mem_cons.2 ⟨h.1, admits_nodes h.2⟩
  | declaration position name constant value =>
      intro operand hmem
      obtain ⟨rfl, hpresent⟩ := Operand.mem_ofOptional hmem
      simpa [Node.isEvaluable, Invariant.Admits, hpresent] using h
  | assignment position target value =>
      cases target with
      | identifier => simpa [Node.operands, Node.isEvaluable, Invariant.Admits] using h
      | _ => exact List.forall_mem_nil _
  | binary position operator left right =>
      simp only [Node.isEvaluable, Bool.and_eq_true] at h
      simp [Node.operands, Invariant.Admits, h]
  | member position owner key computed =>
      simp only [Node.isEvaluable, Bool.and_eq_true] at h
      cases computed <;> simp_all [Node.operands, Invariant.Admits]
  | _ => exact List.forall_mem_nil _

theorem covers_sound (host : Host) :
    (Invariant.sound host).Covers host fun _ _ _ node => node.isEvaluable = true where
  later h _ := h
  shallow _ := trivial
  operands := admits_operands
  failure := foreseen_action
  declares _ _ := trivial
  function h := h
  body _ hfunction _ _ := by
    have hbody : Node.isEvaluableAll _ = true := hfunction
    rw [Node.isEvaluableAll_eq_all] at hbody
    exact List.all_eq_true.1 hbody

/-- Whether a run ends well: with a value that has a text, or with a failure that
is foreseen. -/
def Outcome.Foreseen (host : Host) : Outcome → Prop
  | .ok value => value.render?.isSome = true
  | .error failure => failure.Foreseen host

theorem step_spec (host : Host) (source : String) {world : World} (h : world.store.Sound) :
    (step host source world).1.Foreseen host ∧ (step host source world).2.store.Sound := by
  unfold step
  rcases parse_spec source with ⟨program, hparse, hevaluable⟩ | ⟨error, hparse⟩ | hsyntax
  · have hkeeps : (Invariant.sound host).Keeps 0 _
        (evaluate host depthLimit Store.globalId program) _ :=
      Invariant.keeps_evaluate (lawful_sound host) (covers_sound host) hevaluable
    have hworld : (Invariant.sound host).At 0 world := ⟨Nat.zero_le _, h⟩
    rw [hparse]
    simp only [evaluateGlobally, Eval.outcome]
    cases hresult : evaluate host depthLimit Store.globalId program world with
    | ok value next =>
        obtain ⟨hmem, hvalue⟩ := hkeeps.ok world hworld value next hresult
        exact ⟨Value.isSome_render? value hvalue, (hkeeps.through world hworld next hmem).2⟩
    | error failure next =>
        obtain ⟨hmem, hfailure⟩ := hkeeps.error world hworld failure next hresult
        exact ⟨hfailure, (hkeeps.through world hworld next hmem).2⟩
  · rw [hparse]
    exact ⟨trivial, h⟩
  · obtain ⟨error, hparse, hcause⟩ := hsyntax
    rw [hparse]
    exact ⟨hcause, h⟩

theorem session_spec (host : Host) (sources : List String) {world : World}
    (h : world.store.Sound) :
    ∀ result ∈ session host sources world, result.1.Foreseen host := by
  induction sources generalizing world with
  | nil => simp [session]
  | cons source rest ih =>
      have hstep := step_spec host source h
      intro result hmem
      rcases List.mem_cons.1 hmem with rfl | hmem
      · exact hstep.1
      · exact ih hstep.2 result hmem

/--
Whatever the sources, the lines of input and the clock, every run and every step
of a session ends with a value that has a text or with an error of the language,
the end of the input or the limit of depth.
-/
theorem session_foreseen (host : Host) (input : List String) :
    (∀ source, (run host source input).1.Foreseen host) ∧
      ∀ sources, ∀ result ∈ session host sources (.initial input), result.1.Foreseen host :=
  ⟨fun source => (step_spec host source Store.sound_initial).1,
    fun sources => session_spec host sources Store.sound_initial⟩

end Nomi
