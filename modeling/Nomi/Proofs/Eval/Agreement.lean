import Nomi.Eval.Session
import Nomi.Proofs.Eval.Comparison
import Nomi.Proofs.Eval.Operands

/-!
# Runs that agree

Two evaluations of trees that are alike, from worlds that are alike in what is seen,
take and write the same lines, end alike and leave worlds that are alike.  What is
seen grows with the scopes that the two runs create.
-/

namespace Nomi

inductive Failure.Alike (places : Places) : Failure → Failure → Prop
  | source (error : SourceError) : Alike places (.source error) (.source error)
  | scope (error : ScopeError) : Alike places (.scope error) (.scope error)
  | operation (cause : OperationCause) {p q : Position} (hplace : places p q) :
      Alike places (.operation cause p) (.operation cause q)
  | cancelled : Alike places .cancelled .cancelled
  | interrupted : Alike places .interrupted .interrupted
  | tooDeep : Alike places .tooDeep .tooDeep
  | fault (fault : Fault) : Alike places (.fault fault) (.fault fault)

inductive Outcome.Alike (places : Places) (seen : ScopeId → Prop) : Outcome → Outcome → Prop
  | ok {a b : Value} (h : a.Alike places seen b) : Alike places seen (.ok a) (.ok b)
  | error {f g : Failure} (h : f.Alike places g) : Alike places seen (.error f) (.error g)

namespace View

variable {view : View}

def comparison (view : View) : Comparison where
  stores := view.Stores
  values := view.Values
  nodes := Node.Alike view.places
  failures := Failure.Alike view.places
  escapes _ := False
  sees := view.Sees

/-- Whether two worlds are alike in what is seen, in the lines of input that are left
and in the lines written. -/
abbrev Worlds (view : View) : World → World → Prop :=
  view.comparison.Worlds

theorem lawful_comparison (view : View) (host : Host) : view.comparison.Lawful host host where
  lasting _ _ _ _ hsize := Value.Alike.mono fun _ hseen => Sees.mono hseen hsize
  sees_mono h hlarger := Sees.mono h hlarger
  null := .null
  string := .string
  size h := Stores.size h
  lookup h hscope name := Stores.lookup h hscope name
  create h hparent := ⟨Stores.create h hparent, .inr ⟨Stores.grown h, Nat.lt_succ_self _⟩⟩
  declare h hscope hvalue name constant := Stores.declare h hscope name constant hvalue
  assign h hscope hvalue name := Stores.assign h hscope name hvalue
  overwrite h hscope hvalue name := Stores.overwrite h hscope name hvalue
  scope error := .scope error
  tooDeep := .tooDeep
  ending := by
    cases host.ending with
    | cancels => exact .cancelled
    | interrupts => exact .interrupted

variable {a b : Node} {size : Nat} {scope : ScopeId} {xs ys : List Value}

theorem alike_ofOptional (h : Node.Alike view.places a b) :
    List.Forall₂ view.comparison.Operands (Operand.ofOptional a) (Operand.ofOptional b) := by
  have hnode := h
  cases h with
  | absent => exact .nil
  | _ => exact .cons (.node hnode) .nil

theorem alike_ofEntry (h : Node.Alike view.places a b) :
    List.Forall₂ view.comparison.Operands (Operand.ofEntry a) (Operand.ofEntry b) := by
  have hfault : ∀ cause : Fault,
      List.Forall₂ view.comparison.Operands [.fault cause] [.fault cause] :=
    fun cause => .cons (.fault (.fault cause)) .nil
  cases h with
  | @property p q key x y hplace hvalue =>
      have hnode := hvalue
      cases hvalue with
      | absent => exact .cons (.name key) .nil
      | _ => exact .cons (.node hnode) .nil
  | declaration hplace hvalue => exact List.rel_append (alike_ofOptional hvalue) (hfault _)
  | assignment hplace htarget hvalue => exact List.rel_append (alike_ofOptional hvalue) (hfault _)
  | @abstract p q kind hplace => cases kind <;> exact hfault _
  | _ => exact hfault _

theorem alike_operands (h : Node.Alike view.places a b) :
    List.Forall₂ view.comparison.Operands a.operands b.operands := by
  have hall : ∀ {xs ys : List Node}, Node.AlikeAll view.places xs ys →
      List.Forall₂ view.comparison.Operands (xs.map .node) (ys.map .node) := fun hnodes =>
    List.rel_map (fun _ _ hnode => Comparison.Operands.node hnode) hnodes
  cases h with
  | @identifier p q name hplace => exact .cons (.name name) .nil
  | object hplace hproperties => exact List.rel_flatMap hproperties fun _ _ => alike_ofEntry
  | array hplace helements => exact hall helements
  | program hplace hbody => exact hall hbody
  | call hplace hcallee harguments => exact .cons (.node hcallee) (hall harguments)
  | declaration hplace hvalue => exact alike_ofOptional hvalue
  | assignment hplace htarget hvalue =>
      cases htarget with
      | identifier => exact .cons (.node hvalue) .nil
      | _ => exact .nil
  | binary hplace hleft hright => exact .cons (.node hleft) (.cons (.node hright) .nil)
  | @member p q a b x y computed hplace howner hkey =>
      cases computed with
      | true => exact .cons (.node howner) (.cons (.node hkey) .nil)
      | false => exact .cons (.node howner) .nil
  | _ => exact .nil

theorem alike_ofCall (host : Host) {f g : Value} {p q : Position} (hplace : view.places p q)
    (hfunction : view.Values size f g) (hvalues : List.Forall₂ (view.Values size) xs ys) :
    view.comparison.Actions size (.ofCall host p f xs) (.ofCall host q g ys) := by
  cases hfunction with
  | function hbody hhome => exact .enter hhome hvalues hbody
  | @builtin callee =>
      cases callee with
      | time => exact .give .number
      | other => exact .fault (.fault _)
      | print =>
          simp only [Action.ofCall, Value.texts_alike hvalues]
          cases ys.mapM Value.render? with
          | none => exact .fault (.fault _)
          | some texts => exact .write
  | _ => exact .refuse (.operation _ hplace)

theorem Node.AlikeAll.keys {places : Places} {xs ys : List Node}
    (h : Node.AlikeAll places xs ys) : xs.map Node.key = ys.map Node.key := by
  induction h with
  | nil => rfl
  | cons hfirst _ ih => cases hfirst <;> simp [ih, Node.key]

theorem alike_zip (names : List String) (h : List.Forall₂ (view.Values size) xs ys) :
    Fields.Alike (view.Values size) (names.zip xs) (names.zip ys) := by
  induction h generalizing names with
  | nil => simp [Fields.Alike]
  | cons hfirst _ ih =>
      cases names with
      | nil => exact .nil
      | cons name rest => exact .cons ⟨rfl, hfirst⟩ (ih rest)

theorem alike_action (host : Host) (h : Node.Alike view.places a b) (hscope : view.Sees size scope)
    (hvalues : List.Forall₂ (view.Values size) xs ys) :
    view.comparison.Actions size (a.action host scope xs) (b.action host scope ys) := by
  have hhead : view.Values size (xs.headD .null) (ys.headD .null) := rel_headD hvalues .null
  have hsecond : view.Values size (xs.getD 1 .null) (ys.getD 1 .null) :=
    rel_getD_one hvalues .null
  cases h with
  | number => exact .give .number
  | string => exact .give .string
  | identifier => exact .give hhead
  | array => exact .give (.array hvalues)
  | @object p q properties others hplace hproperties =>
      have hfields := Fields.Alike.ofList (alike_zip (others.map Node.key) hvalues)
      simp only [Node.action, Node.AlikeAll.keys hproperties]
      exact .give (Value.alike_object_iff.2 hfields)
  | call hplace => exact alike_ofCall host hplace hhead (rel_tail hvalues)
  | assignment hplace htarget =>
      cases htarget with
      | identifier => exact .assign hhead
      | @abstract p q kind => cases kind <;> exact .refuse (.operation _ hplace)
      | _ => exact .refuse (.operation _ hplace)
  | binary hplace =>
      refine Comparison.actions_ofResult (results_apply _ hhead hsecond) ?_
      exact fun cause => .operation cause hplace
  | @member p q a b x y computed hplace howner hkey =>
      have hfailure : ∀ cause,
          Failure.Alike view.places (.operation cause p) (.operation cause q) :=
        fun cause => .operation cause hplace
      cases computed with
      | true => exact Comparison.actions_ofResult (results_index hhead hsecond) hfailure
      | false =>
          cases hkey with
          | identifier => exact Comparison.actions_ofResult (results_property hhead _) hfailure
          | @abstract p q kind => cases kind <;> exact .fault (.fault _)
          | _ => exact .fault (.fault _)
  | read => exact .read
  | program => exact .give (rel_getLastD hvalues .null)
  | declaration => exact .declare hhead
  | function hplace hbody => exact .declare (.function hbody hscope)
  | @abstract p q kind => cases kind <;> exact .fault (.fault _)
  | property | absent => exact .fault (.fault _)

theorem covers_comparison (view : View) (host : Host) : view.comparison.Covers host host where
  operands := alike_operands
  action h hscope hvalues := alike_action host h hscope hvalues

end View

theorem agree_evaluate (view : View) (host : Host) (depth : Nat) {least : Nat} {scope : ScopeId}
    {a b : Node} (hscope : view.Sees least scope) (h : Node.Alike view.places a b) :
    view.comparison.Agree least (evaluate host depth scope a) (evaluate host depth scope b)
      view.Values :=
  Comparison.agree_evaluate (view.lawful_comparison host) (view.covers_comparison host) depth
    hscope h

theorem Comparison.Ends.outcome {view : View} {size : Nat} {first second : Eval Value}
    {one two : World}
    (h : view.comparison.Ends size view.Values (first one) (second two)) :
    (first.outcome one).1.Alike view.places (view.Sees (first.outcome one).2.store.size)
        (second.outcome two).1 ∧
      view.Worlds (first.outcome one).2 (second.outcome two).2 := by
  unfold Eval.outcome
  generalize first one = left at h ⊢
  generalize second two = right at h ⊢
  cases h with
  | ok hworlds _ h => exact ⟨.ok h, hworlds⟩
  | error hworlds _ h => exact ⟨.error h, hworlds⟩
  | escape h => exact h.elim

end Nomi
