import Nomi.Eval.Operation
import Nomi.Proofs.Store.View

/-!
# Operations on alike values

Operators, members and texts do not see more of values than what alike values have in
common, so they give alike results.
-/

namespace Nomi

namespace Value

variable {places : Places} {seen : ScopeId → Prop} {a b c d : Value}

mutual

theorem Alike.render? : ∀ {a b : Value}, Alike places seen a b → a.render? = b.render?
  | .null, _, .null => rfl
  | .boolean _, _, .boolean => rfl
  | .number _, _, .number => rfl
  | .string _, _, .string => rfl
  | .array _, _, .array helements => by
      rw [Value.render?, Value.render?, AlikeAll.renderAll? helements]
  | .object fields, .object others, .object hnames hvalues => by
      rw [Value.render?, Value.render?, AlikeFields.renderFields? fields hnames hvalues]
  | .function .., _, .function _ _ => rfl
  | .builtin _, _, .builtin => rfl
  | .unknown, _, .unknown => rfl

theorem AlikeAll.renderAll? : ∀ {xs ys : List Value}, List.Forall₂ (Alike places seen) xs ys →
    Value.renderAll? xs = Value.renderAll? ys
  | [], _, .nil => rfl
  | _ :: _, _, .cons hfirst hrest => by
      rw [Value.renderAll?, Value.renderAll?, Alike.render? hfirst, AlikeAll.renderAll? hrest]

theorem AlikeFields.renderFields? : ∀ (fields : Fields Value) {others : Fields Value},
    fields.map (·.1) = others.map (·.1) →
    List.Forall₂ (Alike places seen) (fields.map (·.2)) (others.map (·.2)) →
    Value.renderFields? fields = Value.renderFields? others
  | [], [], _, _ => rfl
  | (name, value) :: rest, (other, found) :: others, hnames, .cons hfirst hrest => by
      simp only [List.map_cons, List.cons.injEq] at hnames
      have hvalue : value.render? = found.render? := Alike.render? hfirst
      rw [Value.renderFields?, Value.renderFields?, hvalue, hnames.1,
        AlikeFields.renderFields? rest hnames.2 hrest]

end

theorem texts_alike {xs ys : List Value} (h : List.Forall₂ (Alike places seen) xs ys) :
    xs.mapM Value.render? = ys.mapM Value.render? := by
  induction h with
  | nil => rfl
  | cons hfirst _ ih => rw [List.mapM_cons, List.mapM_cons, hfirst.render?, ih]

end Value

namespace View

open Value

variable {view : View} {size : Nat} {a b c d : Value}

theorem results_onNumbers (operator : Operator) (x y : Float) :
    Results (view.Values size) (operator.onNumbers x y) (operator.onNumbers x y) := by
  have hdefined : ∀ (function : String) (result : Option Float),
      Results (view.Values size) (Value.ofDefined function result)
        (Value.ofDefined function result) := by
    intro function result
    cases result with
    | none => exact .error _
    | some value => exact .ok .number
  cases operator with
  | add | subtract | multiply => exact .ok .number
  | divide | remainder => exact hdefined _ _
  | less | greater => exact .ok .boolean
  | other symbol => exact .error _

theorem results_onStrings (operator : Operator) (x y : String) :
    Results (view.Values size) (operator.onStrings x y) (operator.onStrings x y) := by
  cases operator with
  | add => exact .ok .string
  | _ => exact .error _

theorem results_apply (operator : Operator) (hleft : view.Values size a b)
    (hright : view.Values size c d) :
    Results (view.Values size) (operator.apply a c) (operator.apply b d) := by
  cases hleft with
  | number =>
      cases hright with
      | number => exact results_onNumbers operator _ _
      | _ => exact .ok .null
  | string =>
      cases hright with
      | string => exact results_onStrings operator _ _
      | _ => exact .ok .null
  | _ => cases hright <;> exact .ok .null

theorem results_property (h : view.Values size a b) (key : String) :
    Results (view.Values size) (a.property key) (b.property key) := by
  cases h with
  | @object xs ys hnames hvalues =>
      have hfields := alike_object_iff.1 (Alike.object hnames hvalues)
      simp only [Value.property]
      rcases rel_cases (Fields.Alike.get? hfields key) with ⟨hx, hy⟩ | ⟨x, y, hx, hy, hvalue⟩
      · rw [hx, hy]
        exact .error _
      · rw [hx, hy]
        exact .ok hvalue
  | _ => exact .error _

/-- The items of related lists at a place are related. -/
theorem rel_getElem? {α β : Type} {related : α → β → Prop} {xs : List α} {ys : List β}
    (h : List.Forall₂ related xs ys) (place : Nat) : Option.Rel related xs[place]? ys[place]? := by
  induction h generalizing place with
  | nil => exact .none
  | cons hfirst _ ih =>
      cases place with
      | zero => exact .some hfirst
      | succ place => exact ih place

theorem results_element {xs ys : List Value} (h : List.Forall₂ (view.Values size) xs ys)
    (index : Float) :
    Results (view.Values size) (Value.element xs index) (Value.element ys index) := by
  unfold Value.element
  split
  · cases Binary64.floor? index with
    | none => exact .error _
    | some place =>
        by_cases hplace : 0 ≤ place
        · simp only [hplace, if_true]
          rcases rel_cases (rel_getElem? h place.toNat) with ⟨hx, hy⟩ | ⟨x, y, hx, hy, hvalue⟩
          · rw [hx, hy]
            exact .error _
          · rw [hx, hy]
            exact .ok hvalue
        · simp only [hplace, if_false]
          exact .error _
  · exact .error _

theorem results_index (htarget : view.Values size a b) (hkey : view.Values size c d) :
    Results (view.Values size) (a.index c) (b.index d) := by
  cases htarget with
  | array helements =>
      cases hkey with
      | number => exact results_element helements _
      | _ => exact .error _
  | object hnames hvalues =>
      cases hkey with
      | string => exact results_property (.object hnames hvalues) _
      | _ => exact .error _
  | _ => cases hkey <;> exact .error _

end View

end Nomi
