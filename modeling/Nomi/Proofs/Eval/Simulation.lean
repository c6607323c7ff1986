import Nomi.Eval.Session
import Nomi.Proofs.Eval.Comparison
import Nomi.Proofs.Eval.Conversion

/-!
# Runs on converted values

A run of a tree whose entries are filled in, from a world whose values are converted,
does what the run of the tree itself does, and leaves the world of that run converted.
It may also escape, by a failure that tells that the conversion made a difference.
-/

namespace Nomi

def World.converted (conversion : Conversion) (world : World) : World :=
  { world with store := world.store.mapValues conversion.value }

namespace Conversion

variable {conversion : Conversion} {escape : Failure → Prop} {host other : Host} {size : Nat}
  {scope : ScopeId} {values : List Value}

def comparison (conversion : Conversion) (escape : Failure → Prop) : Comparison where
  stores first second := second = first.mapValues conversion.value
  values _ a b := b = conversion.value a
  nodes a b := b = a.filled conversion.fill
  failures f g := g = f
  escapes := escape
  sees _ _ := True

/-- What has to be known of two hosts and of a conversion: calls of `time` and entries
without a value do the same, or escape. -/
structure Suits (conversion : Conversion) (escape : Failure → Prop) (host other : Host) :
    Prop where
  ending : host.ending = other.ending
  time : conversion.time = .time ∧ host.clock = other.clock ∨
    ∃ name, conversion.time = .other name ∧ escape (.fault (.notBuiltIn name))
  fill : ∀ position key, conversion.fill position key = .absent ∨
    conversion.fill position key = .identifier position key ∧ escape .tooDeep

theorem forall₂_eq_map_iff {α β : Type} {f : α → β} {xs : List α} {ys : List β} :
    List.Forall₂ (fun a b => b = f a) xs ys ↔ ys = xs.map f := by
  constructor
  · intro h
    induction h with
    | nil => rfl
    | cons hfirst _ ih => rw [hfirst, ih, List.map_cons]
  · rintro rfl
    exact List.forall₂_map_right_iff.2 (List.forall₂_same.2 fun _ _ => rfl)

theorem results_map {ε α β : Type} (f : α → β) (result : Except ε α) :
    View.Results (fun a b => b = f a) result (result.map f) := by
  cases result with
  | ok value => exact .ok rfl
  | error error => exact .error error

theorem lawful_comparison (h : Suits conversion escape host other) :
    (conversion.comparison escape).Lawful host other where
  lasting _ _ _ _ _ hvalue := hvalue
  sees_mono _ _ := trivial
  null := rfl
  string := rfl
  size := by
    rintro first _ rfl
    exact (Store.size_mapValues _ first).symm
  lookup := by
    rintro first _ scope rfl _ name
    rw [Store.lookup_mapValues]
    exact results_map _ _
  create := by
    rintro first _ parent rfl _
    exact ⟨(Store.mapValues_create ..).symm, trivial⟩
  declare := by
    rintro first _ scope value _ rfl _ rfl name constant
    rw [Store.declare_mapValues]
    exact results_map _ _
  assign := by
    rintro first _ scope value _ rfl _ rfl name
    rw [Store.assign_mapValues]
    exact results_map _ _
  overwrite := by
    rintro first _ scope value _ rfl _ rfl name
    exact Store.overwrite_mapValues ..
  scope _ := rfl
  tooDeep := rfl
  ending := congrArg Ending.failure h.ending.symm

theorem converted_ofOptional (value : Node) :
    List.Forall₂ (conversion.comparison escape).Operands (Operand.ofOptional value)
      (Operand.ofOptional (value.filled conversion.fill)) := by
  cases value with
  | absent => exact .nil
  | _ => exact .cons (.node rfl) .nil

theorem converted_ofEntry (h : Suits conversion escape host other) (node : Node) :
    List.Forall₂ (conversion.comparison escape).Operands (Operand.ofEntry node)
      (Operand.ofEntry (node.filled conversion.fill)) := by
  have hfault : ∀ cause : Fault, List.Forall₂ (conversion.comparison escape).Operands
      [.fault cause] [.fault cause] := fun cause => .cons (.fault rfl) .nil
  cases node with
  | property position key value =>
      cases value with
      | absent =>
          rcases h.fill position key with hfill | ⟨hfill, hescape⟩
          · simp only [Node.filled, hfill]
            exact .cons (.name key) .nil
          · simp only [Node.filled, hfill]
            exact .cons (.read hescape) .nil
      | _ => exact .cons (.node rfl) .nil
  | declaration position name constant value | assignment position target value =>
      exact List.rel_append (converted_ofOptional value) (hfault _)
  | _ => exact hfault _

theorem converted_operands (h : Suits conversion escape host other) (node : Node) :
    List.Forall₂ (conversion.comparison escape).Operands node.operands
      (node.filled conversion.fill).operands := by
  have hnodes : ∀ nodes : List Node, List.Forall₂ (conversion.comparison escape).nodes nodes
      (Node.filledAll conversion.fill nodes) :=
    fun nodes => forall₂_eq_map_iff.2 (Node.filledAll_eq_map _ nodes)
  have hall : ∀ nodes : List Node, List.Forall₂ (conversion.comparison escape).Operands
      (nodes.map .node) ((Node.filledAll conversion.fill nodes).map .node) :=
    fun nodes => List.rel_map (fun _ _ hnode => Comparison.Operands.node hnode) (hnodes nodes)
  cases node with
  | identifier position name => exact .cons (.name name) .nil
  | object position properties =>
      refine List.rel_flatMap (hnodes properties) ?_
      rintro entry _ rfl
      exact converted_ofEntry h entry
  | array position nodes | program position nodes => exact hall nodes
  | call position callee arguments => exact .cons (.node rfl) (hall arguments)
  | declaration position name constant value => exact converted_ofOptional value
  | assignment position target value =>
      cases target with
      | identifier => exact .cons (.node rfl) .nil
      | _ => exact .nil
  | binary => exact .cons (.node rfl) (.cons (.node rfl) .nil)
  | member position owner key computed =>
      cases computed with
      | true => exact .cons (.node rfl) (.cons (.node rfl) .nil)
      | false => exact .cons (.node rfl) .nil
  | _ => exact .nil

theorem converted_ofCall (h : Suits conversion escape host other) (function : Value)
    (values : List Value) (position : Position) :
    (conversion.comparison escape).Actions size (.ofCall host position function values)
      (.ofCall other position (conversion.value function) (values.map conversion.value)) := by
  cases function with
  | function name parameters body home =>
      refine .enter trivial (forall₂_eq_map_iff.2 rfl) ?_
      exact forall₂_eq_map_iff.2 (Node.filledAll_eq_map _ body)
  | builtin function =>
      cases function with
      | other => exact .fault rfl
      | print =>
          simp only [Conversion.value, builtin, Action.ofCall, conversion.texts_values]
          cases values.mapM Value.render? with
          | none => exact .fault rfl
          | some texts => exact .write
      | time =>
          simp only [Conversion.value, builtin]
          rcases h.time with ⟨htime, hclock⟩ | ⟨name, htime, hescape⟩
          · rw [htime, Action.ofCall, Action.ofCall, hclock]
            exact .give rfl
          · rw [htime]
            exact .escape hescape
  | _ => exact .refuse rfl

theorem keys_filledAll (fill : Position → String → Node) (nodes : List Node) :
    (Node.filledAll fill nodes).map Node.key = nodes.map Node.key := by
  rw [Node.filledAll_eq_map, List.map_map]
  apply List.map_congr_left
  intro node _
  cases node <;> rfl

theorem fieldValues_ofList_zip (names : List String) (values : List Value) :
    conversion.fieldValues (Fields.ofList (names.zip values)) =
      Fields.ofList (names.zip (values.map conversion.value)) := by
  rw [conversion.fieldValues_eq_mapValues, Fields.mapValues_ofList, List.zip_map_right]
  rfl

theorem converted_action (h : Suits conversion escape host other) (node : Node) :
    (conversion.comparison escape).Actions size (node.action host scope values)
      ((node.filled conversion.fill).action other scope (values.map conversion.value)) := by
  have hvalues : List.Forall₂ ((conversion.comparison escape).values size) values
      (values.map conversion.value) := forall₂_eq_map_iff.2 rfl
  have hhead : (values.map conversion.value).headD .null =
      conversion.value (values.headD .null) := rel_headD hvalues rfl
  have hsecond : (values.map conversion.value).getD 1 .null =
      conversion.value (values.getD 1 .null) := rel_getD_one hvalues rfl
  cases node with
  | number | string => exact .give rfl
  | identifier => exact .give hhead
  | array => exact .give (congrArg Value.array (conversion.values_eq_map values).symm)
  | object position properties =>
      refine .give (congrArg Value.object ?_)
      rw [keys_filledAll]
      exact (fieldValues_ofList_zip _ values).symm
  | call position callee arguments =>
      simp only [Node.filled, Node.action, hhead, ← List.map_tail]
      exact converted_ofCall h _ _ position
  | assignment position target value =>
      cases target with
      | identifier => exact .assign hhead
      | _ => exact .refuse rfl
  | binary position operator left right =>
      simp only [Node.filled, Node.action, hhead, hsecond, conversion.apply_value]
      exact Comparison.actions_ofResult (results_map _ _) fun _ => rfl
  | member position owner key computed =>
      cases computed with
      | true =>
          simp only [Node.filled, Node.action, hhead, hsecond, conversion.index_value]
          exact Comparison.actions_ofResult (results_map _ _) fun _ => rfl
      | false =>
          cases key with
          | identifier place name =>
              simp only [Node.filled, Node.action, hhead, conversion.property_value]
              exact Comparison.actions_ofResult (results_map _ _) fun _ => rfl
          | _ => exact .fault rfl
  | read => exact .read
  | program => exact .give (rel_getLastD hvalues rfl)
  | declaration => exact .declare hhead
  | function => exact .declare rfl
  | property | abstract | absent => exact .fault rfl

theorem covers_comparison (h : Suits conversion escape host other) :
    (conversion.comparison escape).Covers host other where
  operands := by
    rintro a _ rfl
    exact converted_operands h a
  action := by
    rintro a _ size scope values others rfl _ hvalues
    obtain rfl := forall₂_eq_map_iff.1 hvalues
    exact converted_action h a

/-! ## Outcomes -/

theorem worlds_converted (world : World) :
    (conversion.comparison escape).Worlds world (world.converted conversion) :=
  ⟨rfl, rfl, rfl⟩

theorem converted_of_worlds {first second : World}
    (h : (conversion.comparison escape).Worlds first second) :
    second = first.converted conversion := by
  obtain ⟨store, input, output⟩ := second
  obtain ⟨hstores, hinput, houtput⟩ := h
  cases hstores
  cases hinput
  cases houtput
  rfl

/-- What does not escape ends as the first run does, on converted values. -/
theorem outcome_of_ends {size : Nat} {first second : Eval Value} {world : World}
    (h : (conversion.comparison escape).Ends size (conversion.comparison escape).values
      (first world) (second (world.converted conversion)))
    (hescape : ∀ failure, (second.outcome (world.converted conversion)).1 = .error failure →
      ¬ escape failure) :
    second.outcome (world.converted conversion) =
      ((first.outcome world).1.map conversion.value,
        (first.outcome world).2.converted conversion) := by
  unfold Eval.outcome at hescape ⊢
  generalize first world = left at h ⊢
  generalize second (world.converted conversion) = right at hescape h ⊢
  cases h with
  | ok hworlds _ hvalue =>
      cases hvalue
      rw [converted_of_worlds hworlds]
      rfl
  | error hworlds _ hfailure =>
      cases hfailure
      rw [converted_of_worlds hworlds]
      rfl
  | escape hfailure => exact absurd hfailure (hescape _ rfl)

/-- A run of a tree whose entries are filled in, from a converted world, ends as the run of the
tree itself does, on converted values, unless it escapes. -/
theorem outcome_converted (h : Suits conversion escape host other) (depth : Nat) (scope : ScopeId)
    (node : Node) (world : World)
    (hescape : ∀ failure, ((evaluate other depth scope (node.filled conversion.fill)).outcome
      (world.converted conversion)).1 = .error failure → ¬ escape failure) :
    (evaluate other depth scope (node.filled conversion.fill)).outcome
        (world.converted conversion) =
      (((evaluate host depth scope node).outcome world).1.map conversion.value,
        ((evaluate host depth scope node).outcome world).2.converted conversion) := by
  have hruns : (conversion.comparison escape).Agree 0 (evaluate host depth scope node)
      (evaluate other depth scope (node.filled conversion.fill)) _ :=
    Comparison.agree_evaluate (lawful_comparison h) (covers_comparison h) depth trivial rfl
  exact outcome_of_ends (hruns _ _ (worlds_converted world) (Nat.zero_le _)) hescape

end Conversion

/-! ## What shows of a run -/

/-- What shows of the bindings of a scope: the names in the order of declaration, the texts
of their values, and which of them are constant. -/
def Scope.showing (scope : Scope) : List (String × Option String × Bool) :=
  scope.bindings.map fun binding => (binding.name, binding.value.render?, binding.constant)

/-- Whether two runs show the same.  They fail alike or give values of the same text, they
leave the same lines of input and write the same lines, and the global scopes that they
leave show the same. -/
structure ShowSame (one two : Outcome × World) : Prop where
  ending : one.1.map Value.render? = two.1.map Value.render?
  input : one.2.input = two.2.input
  output : one.2.output = two.2.output
  globals : (one.2.store.scope? Store.globalId).map Scope.showing =
    (two.2.store.scope? Store.globalId).map Scope.showing

namespace ShowSame

variable {one two three : Outcome × World}

theorem symm (h : ShowSame one two) : ShowSame two one :=
  ⟨h.ending.symm, h.input.symm, h.output.symm, h.globals.symm⟩

theorem trans (h : ShowSame one two) (hmore : ShowSame two three) : ShowSame one three :=
  ⟨h.ending.trans hmore.ending, h.input.trans hmore.input, h.output.trans hmore.output,
    h.globals.trans hmore.globals⟩

/-- Runs that show the same fail in the same way. -/
theorem failed (h : ShowSame one two) {failure : Failure} (htwo : two.1 = .error failure) :
    one.1 = .error failure := by
  have hending := h.ending
  rw [htwo] at hending
  cases hone : one.1 with
  | ok value =>
      rw [hone] at hending
      contradiction
  | error found =>
      rw [hone] at hending
      exact congrArg Except.error (Except.error.inj hending)

end ShowSame

theorem Scope.showing_mapValues {f : Value → Value}
    (h : ∀ value, (f value).render? = value.render?) (scope : Scope) :
    (scope.mapValues f).showing = scope.showing := by
  simp only [showing, bindings, mapValues, Fields.mapValues, List.map_map]
  apply List.map_congr_left
  intro entry _
  simp only [Function.comp_apply, h]
  rfl

/-- A run shows the same on converted values. -/
theorem showSame_converted (conversion : Conversion) (run : Outcome × World) :
    ShowSame run (run.1.map conversion.value, run.2.converted conversion) where
  ending := by
    cases run.1 with
    | ok value => exact congrArg Except.ok (conversion.render?_value value).symm
    | error failure => rfl
  input := rfl
  output := rfl
  globals := by
    have hshowing := Scope.showing_mapValues conversion.render?_value
    simp only [World.converted, Store.scope?_mapValues, Option.map_map]
    cases run.2.store.scope? Store.globalId with
    | none => rfl
    | some scope => exact congrArg some (hshowing scope).symm

end Nomi
