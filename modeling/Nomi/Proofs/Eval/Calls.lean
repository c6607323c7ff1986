import Mathlib.Data.List.Induction
import Nomi.Eval.Session
import Nomi.Proofs.Store.Laws
import Nomi.Proofs.Syntax.Sources

/-!
# Entering a function

A call makes one new scope for the body, inside the scope that the function was
declared in, and binds the parameters there one after the other.  Only a parameter that
is named twice can stop this: the second of the name is refused like any other
declaration of a bound name.
-/

namespace Nomi

namespace Scope

/-- A scope with parameters bound to arguments by position. -/
def bindAll (scope : Scope) : List String → List Value → Scope
  | [], _ => scope
  | name :: names, values =>
      (scope.add name (values.headD .null) false).bindAll names values.tail

variable {scope : Scope} {names : List String} {name other : String}

theorem names_add (value : Value) (constant : Bool) (h : name ∉ scope.names) :
    (scope.add name value constant).names = scope.names ++ [name] :=
  (scope.names_set name value).trans (if_neg h)

/-- A name that is bound leaves the other ones free. -/
theorem free_add (value : Value) (constant : Bool) (hnew : name ∉ names)
    (hfree : ∀ other ∈ name :: names, other ∉ scope.names) :
    ∀ other ∈ names, other ∉ (scope.add name value constant).names := by
  intro other hother hmem
  rw [names_add value constant (hfree name List.mem_cons_self), List.mem_append,
    List.mem_singleton] at hmem
  rcases hmem with hold | rfl
  · exact hfree other (List.mem_cons_of_mem _ hother) hold
  · exact hnew hother

theorem parent_bindAll (scope : Scope) (names : List String) (values : List Value) :
    (scope.bindAll names values).parent = scope.parent := by
  induction names generalizing scope values with
  | nil => rfl
  | cons name rest ih => exact ih _ _

theorem constants_bindAll (scope : Scope) (names : List String) (values : List Value) :
    (scope.bindAll names values).constants = scope.constants := by
  induction names generalizing scope values with
  | nil => rfl
  | cons name rest ih => exact ih _ _

theorem names_bindAll (values : List Value) (hnodup : names.Nodup)
    (hfree : ∀ name ∈ names, name ∉ scope.names) :
    (scope.bindAll names values).names = scope.names ++ names := by
  induction names generalizing scope values with
  | nil => exact (List.append_nil _).symm
  | cons name rest ih =>
      obtain ⟨hnew, hrest⟩ := List.nodup_cons.1 hnodup
      have hnames := names_add (values.headD .null) false (hfree name List.mem_cons_self)
      rw [bindAll, ih _ hrest (free_add _ _ hnew hfree), hnames, List.append_assoc,
        List.singleton_append]

theorem value?_bindAll_of_not_mem (values : List Value) (h : other ∉ names) :
    (scope.bindAll names values).value? other = scope.value? other := by
  induction names generalizing scope values with
  | nil => rfl
  | cons name rest ih =>
      have hne : other ≠ name := fun heq => h (heq ▸ List.mem_cons_self)
      have hrest : other ∉ rest := fun hmem => h (List.mem_cons_of_mem _ hmem)
      rw [bindAll, ih _ hrest]
      exact (scope.value?_set name other _).trans (if_neg hne)

/-- The argument at the place of a parameter is its value, and null if there is none. -/
theorem value?_bindAll (values : List Value) (hnodup : names.Nodup) {place : Nat}
    (h : names[place]? = some name) :
    (scope.bindAll names values).value? name = some (values[place]?.getD .null) := by
  induction names generalizing scope values place with
  | nil => simp at h
  | cons first rest ih =>
      obtain ⟨hnew, hrest⟩ := List.nodup_cons.1 hnodup
      cases place with
      | zero =>
          obtain rfl : first = name := by simpa using h
          rw [bindAll, value?_bindAll_of_not_mem _ hnew, List.headD_eq_head?_getD,
            List.head?_eq_getElem?]
          exact (scope.value?_set first first _).trans (if_pos rfl)
      | succ place =>
          rw [bindAll, ih _ hrest (by simpa using h), List.getElem?_tail]

end Scope

namespace Store

/-- What a store is after the scope of a call has been made and its parameters have been
bound. -/
structure Entered (before : Store) (home : ScopeId) (parameters : List String)
    (values : List Value) (after : Store) : Prop where
  size : after.size = before.size + 1
  others : ∀ id, id ≠ before.size → after.scope? id = before.scope? id
  scope : ∃ scope, after.scope? before.size = some scope ∧ scope.parent = some home ∧
    scope.names = parameters ∧ scope.constants = [] ∧
    ∀ (place : Nat) name, parameters[place]? = some name →
      scope.value? name = some (values[place]?.getD .null)
  /-- The body sees its own scope and then what the scope of the declaration sees. -/
  chain : home < before.size → after.chain before.size = before.size :: before.chain home

variable {store : Store} {home : ScopeId}

theorem update_update (store : Store) (id : ScopeId) (first second : Scope → Scope) :
    (store.update id first).update id second =
      store.update id fun scope => second (first scope) := by
  apply ext_scope?
  intro other
  simp only [scope?_update]
  split
  · rw [Option.map_map]
    rfl
  · rfl

/-- Scopes that are older than a new one do not see it. -/
theorem chain_older {after : Store} {id : ScopeId} (hid : id < store.size)
    (h : ∀ id, id < store.size → after.scope? id = store.scope? id) :
    after.chain id = store.chain id := by
  induction id using Nat.strongRecOn with
  | ind id ih =>
      have hparent : after.parent? id = store.parent? id := by
        rw [parent?, parent?, h id hid]
      cases hfound : store.parent? id with
      | none => rw [chain_of_outermost hfound, chain_of_outermost (hparent.trans hfound)]
      | some parent =>
          have holder := parent?_lt hfound
          rw [chain_of_parent hfound, chain_of_parent (hparent.trans hfound),
            ih parent holder (Nat.lt_trans holder hid)]

/-- The scopes that were there before are as they were. -/
theorem scope?_called (store : Store) (home : ScopeId) (change : Scope → Scope) {id : ScopeId}
    (h : id ≠ store.size) :
    ((store.create (some home)).update store.size change).scope? id = store.scope? id := by
  rw [scope?_update, if_neg (Ne.symm h), scope?_create, if_neg h]

theorem entered_bindAll (store : Store) (home : ScopeId) {parameters : List String}
    (values : List Value) (h : parameters.Nodup) :
    store.Entered home parameters values
      ((store.create (some home)).update store.size (·.bindAll parameters values)) where
  size := by simp
  others _ hid := store.scope?_called home _ hid
  scope := by
    refine ⟨(Scope.empty (some home)).bindAll parameters values, ?_, ?_, ?_, ?_, ?_⟩
    · rw [scope?_update, if_pos rfl, scope?_create, if_pos rfl, Option.map_some]
    · rw [Scope.parent_bindAll]
      rfl
    · rw [Scope.names_bindAll values h (by simp [Scope.empty, Scope.names])]
      rfl
    · rw [Scope.constants_bindAll]
      rfl
    · intro place name hname
      exact Scope.value?_bindAll values h hname
  chain := by
    intro hhome
    have hparent : ((store.create (some home)).update store.size
        (·.bindAll parameters values)).parent? store.size = some home := by
      simp [parent?, scope?_update, scope?_create, Scope.parent_bindAll, Scope.empty, hhome]
    rw [chain_of_parent hparent]
    exact congrArg (store.size :: ·)
      (chain_older hhome fun id hid => store.scope?_called home _ (Nat.ne_of_lt hid))

end Store

/-! ## Binding parameters -/

namespace Eval

variable {id : ScopeId} {names : List String} {values : List Value} {world : World}

/-- Parameters of different names are bound, whatever the arguments are. -/
theorem bindParameters_ok {scope : Scope} (hscope : world.store.scope? id = some scope)
    (hnodup : names.Nodup) (hfree : ∀ name ∈ names, name ∉ scope.names) :
    bindParameters id names values world =
      .ok () { world with store := world.store.update id (·.bindAll names values) } := by
  induction names generalizing world scope values with
  | nil =>
      have hsame : world.store.update id (fun scope => scope) = world.store := by
        apply Store.ext_scope?
        intro other
        rw [Store.scope?_update]
        cases world.store.scope? other <;> simp
      show EStateM.Result.ok () world = _
      simp only [Scope.bindAll, hsame]
  | cons name rest ih =>
      obtain ⟨hnew, hrest⟩ := List.nodup_cons.1 hnodup
      have hunbound : world.store.binds id name = false := by
        rw [Store.binds, hscope, Option.any_some, Bool.eq_false_iff]
        exact fun hbinds => hfree name List.mem_cons_self (Scope.binds_eq_true.1 hbinds)
      let declared : World :=
        { world with store := world.store.update id (·.add name (values.headD .null) false) }
      have hdeclared :
          changeStore (·.declare id name (values.headD .null) false) world = .ok () declared := by
        simp [changeStore, Store.declare, hunbound, declared]
      have hadded :
          declared.store.scope? id = some (scope.add name (values.headD .null) false) := by
        rw [Store.scope?_update, if_pos rfl, hscope, Option.map_some]
      rw [bindParameters, bind_apply, hdeclared]
      dsimp only
      rw [ih hadded hrest (Scope.free_add _ _ hnew hfree)]
      simp only [declared, Store.update_update, Scope.bindAll]

theorem bindParameters_append {first : List String} {next : World} (second : List String)
    (h : bindParameters id first values world = .ok () next) :
    bindParameters id (first ++ second) values world =
      bindParameters id second (values.drop first.length) next := by
  induction first generalizing world values with
  | nil =>
      cases h
      rfl
  | cons name rest ih =>
      obtain ⟨_, declared, hdeclared, hrest⟩ := bind_ok h
      rw [List.cons_append, bindParameters, bind_apply, hdeclared]
      dsimp only
      rw [ih hrest, List.length_cons, ← List.drop_one, List.drop_drop, Nat.add_comm]

/-- A parameter that is named a second time is refused. -/
theorem bindParameters_repeated {scope : Scope} {fresh rest : List String} {name : String}
    (hscope : world.store.scope? id = some scope) (hnodup : fresh.Nodup)
    (hfree : ∀ name ∈ fresh, name ∉ scope.names) (hname : name ∈ fresh) :
    bindParameters id (fresh ++ name :: rest) values world =
      .error (.scope (.alreadyDeclared name))
        { world with store := world.store.update id (·.bindAll fresh values) } := by
  have hbound : (world.store.update id (·.bindAll fresh values)).binds id name = true := by
    rw [Store.binds, Store.scope?_update, if_pos rfl, hscope, Option.map_some, Option.any_some,
      Scope.binds_eq_true, Scope.names_bindAll values hnodup hfree]
    exact List.mem_append_right _ hname
  rw [bindParameters_append _ (bindParameters_ok hscope hnodup hfree), bindParameters, bind_apply]
  simp [changeStore, Store.declare, hbound]

end Eval

/-- A list that holds a member twice holds a first one that is there already. -/
theorem exists_first_repeated {α : Type} {items : List α} (h : ¬ items.Nodup) :
    ∃ fresh item rest, items = fresh ++ item :: rest ∧ fresh.Nodup ∧ item ∈ fresh := by
  induction items using List.reverseRecOn with
  | nil => exact absurd List.nodup_nil h
  | append_singleton before last ih =>
      by_cases hbefore : before.Nodup
      · by_cases hlast : last ∈ before
        · exact ⟨before, last, [], rfl, hbefore, hlast⟩
        · exact absurd (List.nodup_append.2 ⟨hbefore, by simp, by
            rintro item hitem other hother rfl
            exact hlast (List.mem_singleton.1 hother ▸ hitem)⟩) h
      · obtain ⟨fresh, item, rest, rfl, hfresh, hitem⟩ := ih hbefore
        exact ⟨fresh, item, rest ++ [last], by simp, hfresh, hitem⟩

/-! ## Calls -/

namespace Eval

variable {host : Host} {depth : Nat} {scope home : ScopeId} {callee : Node}
  {arguments body : List Node} {name : String} {parameters : List String}
  {values : List Value} {world middle last : World}

/-- What a call does when its callee and its arguments have been evaluated. -/
theorem evaluate_call (position : Position)
    (hcallee : evaluate host depth scope callee world =
      .ok (.function name parameters body home) middle)
    (harguments : arguments.mapM (evaluate host depth scope) middle = .ok values last) :
    evaluate host (depth + 1) scope (.call position callee arguments) world =
      (bindParameters last.store.size parameters values >>= fun _ =>
        runBody (evaluate host depth last.store.size) body)
          { last with store := last.store.create (some home) } := by
  rw [evaluate, bind_apply, hcallee]
  dsimp only
  rw [bind_apply, harguments]
  rfl

/--
Entering a function of the language.

Once the callee has given a function and the arguments their values, the call is the body
run in a new scope.  Its parent is the scope of the declaration, its names are the
parameters in order, none of them constant, each with the argument at its place or null,
and no other scope has changed.  The call is refused before that just when a parameter is
named twice, at the first one that is there already.
-/
theorem call_enters (position : Position)
    (hcallee : evaluate host depth scope callee world =
      .ok (.function name parameters body home) middle)
    (harguments : arguments.mapM (evaluate host depth scope) middle = .ok values last) :
    (parameters.Nodup → ∃ entered, last.store.Entered home parameters values entered ∧
      evaluate host (depth + 1) scope (.call position callee arguments) world =
        runBody (evaluate host depth last.store.size) body { last with store := entered }) ∧
    (¬ parameters.Nodup → ∃ fresh again rest left,
      parameters = fresh ++ again :: rest ∧ fresh.Nodup ∧ again ∈ fresh ∧
      evaluate host (depth + 1) scope (.call position callee arguments) world =
        .error (.scope (.alreadyDeclared again)) { last with store := left } ∧
      ∀ id, id ≠ last.store.size → left.scope? id = last.store.scope? id) := by
  have hcreated : (last.store.create (some home)).scope? last.store.size =
      some (.empty (some home)) := by
    rw [Store.scope?_create, if_pos rfl]
  have hempty (names : List String) : ∀ name ∈ names, name ∉ (Scope.empty (some home)).names := by
    simp [Scope.empty, Scope.names]
  rw [evaluate_call position hcallee harguments]
  constructor
  · intro hnodup
    refine ⟨_, last.store.entered_bindAll home values hnodup, ?_⟩
    rw [bind_apply, bindParameters_ok hcreated hnodup (hempty _)]
  · intro hrepeated
    obtain ⟨fresh, again, rest, rfl, hfresh, hagain⟩ := exists_first_repeated hrepeated
    refine ⟨fresh, again, rest,
      (last.store.create (some home)).update last.store.size (·.bindAll fresh values),
      rfl, hfresh, hagain, ?_, ?_⟩
    · rw [bind_apply, bindParameters_repeated hcreated hfresh (hempty _) hagain]
    · intro id hid
      exact last.store.scope?_called home _ hid

/-- The world after `fn f(a, b) { }` has been declared, where `f` is called with one
argument. -/
theorem call_enters_missing :
    let world : World := ⟨⟨#[(Store.globalScope).add "f" (.function "f" ["a", "b"] [] 0) false]⟩,
      [], #[]⟩
    evaluate ⟨0, .cancels⟩ 1 0 (.identifier ⟨2, 1⟩ "f") world =
        .ok (.function "f" ["a", "b"] [] 0) world ∧
      List.mapM (evaluate ⟨0, .cancels⟩ 1 0) [.string ⟨2, 3⟩ "x"] world = .ok [.string "x"] world ∧
      ∃ entered, world.store.Entered 0 ["a", "b"] [.string "x"] entered ∧
        evaluate ⟨0, .cancels⟩ 2 0
            (.call ⟨2, 1⟩ (.identifier ⟨2, 1⟩ "f") [.string ⟨2, 3⟩ "x"]) world =
          .ok .null { world with store := entered } := by
  intro world
  have hcallee : evaluate ⟨0, .cancels⟩ 1 0 (.identifier ⟨2, 1⟩ "f") world =
      .ok (.function "f" ["a", "b"] [] 0) world := by with_unfolding_all rfl
  have harguments : List.mapM (evaluate ⟨0, .cancels⟩ 1 0) [.string ⟨2, 3⟩ "x"] world =
      .ok [.string "x"] world := rfl
  obtain ⟨entered, hentered, hcall⟩ := (call_enters ⟨2, 1⟩ hcallee harguments).1 (by decide)
  exact ⟨hcallee, harguments, entered, hentered, hcall⟩

/-- A function of a program whose parameters have one name is not entered. -/
theorem not_entered_of_repeated :
    let source := "fn f(a, a)\x7b\x7df(true, false)"
    parse source = .ok (.program .start [.function ⟨1, 1⟩ "f" ["a", "a"] [],
      .call ⟨1, 13⟩ (.identifier ⟨1, 13⟩ "f")
        [.identifier ⟨1, 15⟩ "true", .identifier ⟨1, 21⟩ "false"]]) ∧
      (run ⟨0, .cancels⟩ source []).1 = .error (.scope (.alreadyDeclared "a")) := by
  intro source
  have hcut : tokenize source = .ok [⟨.fnWord, "fn", ⟨1, 1⟩⟩, ⟨.identifier, "f", ⟨1, 4⟩⟩,
      ⟨.openParen, "(", ⟨1, 5⟩⟩, ⟨.identifier, "a", ⟨1, 6⟩⟩, ⟨.comma, ",", ⟨1, 7⟩⟩,
      ⟨.identifier, "a", ⟨1, 9⟩⟩, ⟨.closeParen, ")", ⟨1, 10⟩⟩, ⟨.openBrace, "\x7b", ⟨1, 11⟩⟩,
      ⟨.closeBrace, "\x7d", ⟨1, 12⟩⟩, ⟨.identifier, "f", ⟨1, 13⟩⟩, ⟨.openParen, "(", ⟨1, 14⟩⟩,
      ⟨.identifier, "true", ⟨1, 15⟩⟩, ⟨.comma, ",", ⟨1, 19⟩⟩, ⟨.identifier, "false", ⟨1, 21⟩⟩,
      ⟨.closeParen, ")", ⟨1, 26⟩⟩, .endMark ⟨1, 27⟩] := by decide
  have hparse : parse source = .ok (.program .start [.function ⟨1, 1⟩ "f" ["a", "a"] [],
      .call ⟨1, 13⟩ (.identifier ⟨1, 13⟩ "f")
        [.identifier ⟨1, 15⟩ "true", .identifier ⟨1, 21⟩ "false"]]) := parse_of_tokenize hcut rfl
  refine ⟨hparse, ?_⟩
  rw [run, step, hparse]
  with_unfolding_all rfl

end Eval

end Nomi
