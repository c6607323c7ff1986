import Nomi.Eval.Operation
import Nomi.Proofs.Store.Mapping
import Nomi.Proofs.Syntax.Shorthand

/-!
# Converted values

A conversion fills in the entries without a value in the bodies of functions, and puts
another function in the place of the built-in `time`.  Values keep their types and texts
in it, and operators and members give for converted values what they give for the values
themselves, converted.
-/

namespace Nomi

/-- What is filled in where an entry has no value, and what stands for the built-in
`time`. -/
structure Conversion where
  fill : Position → String → Node
  time : Builtin
  name_time : time.name = "time"

namespace Conversion

variable (conversion : Conversion)

def builtin : Builtin → Builtin
  | .time => conversion.time
  | other => other

@[simp] theorem name_builtin (callee : Builtin) :
    (conversion.builtin callee).name = callee.name := by
  cases callee with
  | time => exact conversion.name_time
  | _ => rfl

mutual

def value : Value → Value
  | .array elements => .array (values elements)
  | .object fields => .object (fieldValues fields)
  | .function name parameters body home =>
      .function name parameters (Node.filledAll conversion.fill body) home
  | .builtin callee => .builtin (conversion.builtin callee)
  | .null => .null
  | .boolean flag => .boolean flag
  | .number number => .number number
  | .string text => .string text
  | .unknown => .unknown

def values : List Value → List Value
  | [] => []
  | first :: rest => value first :: values rest

def fieldValues : List (String × Value) → List (String × Value)
  | [] => []
  | (name, first) :: rest => (name, value first) :: fieldValues rest

end

theorem values_eq_map (items : List Value) :
    conversion.values items = items.map conversion.value := by
  induction items with
  | nil => rfl
  | cons first rest ih => rw [values, ih, List.map_cons]

theorem fieldValues_eq_mapValues (fields : Fields Value) :
    conversion.fieldValues fields = Fields.mapValues conversion.value fields := by
  induction fields with
  | nil => rfl
  | cons first rest ih =>
      obtain ⟨name, first⟩ := first
      rw [fieldValues, ih, Fields.mapValues_cons]

mutual

/-- A converted value has the text of the value. -/
theorem render?_value : ∀ a : Value, (conversion.value a).render? = a.render?
  | .array elements => by
      rw [value, Value.render?, Value.render?, renderAll?_values elements]
  | .object fields => by
      rw [value, Value.render?, Value.render?, renderFields?_fieldValues fields]
  | .builtin callee => by rw [value, Value.render?, Value.render?, name_builtin]
  | .null | .boolean _ | .number _ | .string _ | .function .. | .unknown => rfl

theorem renderAll?_values : ∀ items : List Value,
    Value.renderAll? (conversion.values items) = Value.renderAll? items
  | [] => rfl
  | first :: rest => by
      rw [values, Value.renderAll?, Value.renderAll?, render?_value first, renderAll?_values rest]

theorem renderFields?_fieldValues : ∀ fields : List (String × Value),
    Value.renderFields? (conversion.fieldValues fields) = Value.renderFields? fields
  | [] => rfl
  | (name, first) :: rest => by
      rw [fieldValues, Value.renderFields?, Value.renderFields?, render?_value first,
        renderFields?_fieldValues rest]

end

theorem texts_values (items : List Value) :
    (items.map conversion.value).mapM Value.render? = items.mapM Value.render? := by
  induction items with
  | nil => rfl
  | cons first rest ih =>
      rw [List.map_cons, List.mapM_cons, List.mapM_cons, render?_value, ih]

variable (operator : Operator) (a b : Value)

theorem onNumbers_value (x y : Float) :
    (operator.onNumbers x y).map conversion.value = operator.onNumbers x y := by
  have hdefined : ∀ (function : String) (result : Option Float),
      (Value.ofDefined function result).map conversion.value =
        Value.ofDefined function result := by
    intro function result
    cases result <;> rfl
  cases operator with
  | divide | remainder => exact hdefined _ _
  | _ => rfl

theorem onStrings_value (x y : String) :
    (operator.onStrings x y).map conversion.value = operator.onStrings x y := by
  cases operator <;> rfl

theorem apply_value :
    operator.apply (conversion.value a) (conversion.value b) =
      (operator.apply a b).map conversion.value := by
  cases a with
  | number x =>
      cases b with
      | number y => exact (conversion.onNumbers_value operator x y).symm
      | _ => rfl
  | string x =>
      cases b with
      | string y => exact (conversion.onStrings_value operator x y).symm
      | _ => rfl
  | _ => cases b <;> rfl

theorem property_value (key : String) :
    (conversion.value a).property key = (a.property key).map conversion.value := by
  cases a with
  | object fields =>
      have hfields := Fields.get?_mapValues conversion.value fields key
      rw [← fieldValues_eq_mapValues] at hfields
      simp only [value, Value.property, hfields]
      cases Fields.get? fields key <;> rfl
  | _ => rfl

theorem element_value (elements : List Value) (index : Float) :
    Value.element (conversion.values elements) index =
      (Value.element elements index).map conversion.value := by
  unfold Value.element
  split
  · cases Binary64.floor? index with
    | none => rfl
    | some place =>
        by_cases hplace : 0 ≤ place
        · simp only [hplace, if_true, values_eq_map, List.getElem?_map]
          cases elements[place.toNat]? <;> rfl
        · simp only [hplace, if_false]
          rfl
  · rfl

theorem index_value :
    (conversion.value a).index (conversion.value b) = (a.index b).map conversion.value := by
  cases a with
  | array elements =>
      cases b with
      | number index => exact conversion.element_value elements index
      | _ => rfl
  | object fields =>
      cases b with
      | string key => exact conversion.property_value (.object fields) key
      | _ => rfl
  | _ => cases b <;> rfl

end Conversion

end Nomi
