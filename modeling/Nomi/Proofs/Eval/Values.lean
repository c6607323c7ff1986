import Nomi.Eval.Operation
import Nomi.Proofs.Store.Operations
import Nomi.Proofs.Syntax.Evaluable

/-!
# Values that programs make

Programs make values of the types of the language only, and their functions have
bodies that can be evaluated.  Each of these values has a text.  Operations give plain
values or parts of those that they are given, and fail as the language provides.
-/

namespace Nomi

def Builtin.isKnown : Builtin → Bool
  | .print | .time => true
  | .other _ => false

namespace Value

mutual

/-- Whether a value is one that programs make. -/
def isSound : Value → Bool
  | .null | .boolean _ | .number _ | .string _ => true
  | .array elements => areSound elements
  | .object fields => areSoundFields fields
  | .function _ _ body _ => Node.isEvaluableAll body
  | .builtin callee => callee.isKnown
  | .unknown => false

def areSound : List Value → Bool
  | [] => true
  | value :: rest => isSound value && areSound rest

def areSoundFields : List (String × Value) → Bool
  | [] => true
  | (_, value) :: rest => isSound value && areSoundFields rest

end

theorem areSound_iff {values : List Value} :
    areSound values = true ↔ ∀ value ∈ values, value.isSound = true := by
  induction values with
  | nil => simp [areSound]
  | cons value rest ih => simp [areSound, ih]

theorem areSoundFields_iff {fields : List (String × Value)} :
    areSoundFields fields = true ↔ ∀ entry ∈ fields, entry.2.isSound = true := by
  induction fields with
  | nil => simp [areSoundFields]
  | cons entry rest ih => simp [areSoundFields, ih]

mutual

theorem isSome_render? : ∀ value : Value, value.isSound = true → value.render?.isSome = true
  | .null, _ | .boolean _, _ | .number _, _ | .string _, _ | .function .., _ | .builtin _, _ => rfl
  | .array elements, h => by
      simp only [isSound] at h
      simpa [render?] using isSome_renderAll? elements h
  | .object fields, h => by
      simp only [isSound] at h
      simpa [render?] using isSome_renderFields? fields h
  | .unknown, h => by simp [isSound] at h

theorem isSome_renderAll? :
    ∀ values : List Value, areSound values = true → (renderAll? values).isSome = true
  | [], _ => rfl
  | value :: rest, h => by
      simp only [areSound, Bool.and_eq_true] at h
      obtain ⟨text, htext⟩ := Option.isSome_iff_exists.1 (isSome_render? value h.1)
      obtain ⟨texts, htexts⟩ := Option.isSome_iff_exists.1 (isSome_renderAll? rest h.2)
      simp [renderAll?, htext, htexts]

theorem isSome_renderFields? :
    ∀ fields : List (String × Value), areSoundFields fields = true →
      (renderFields? fields).isSome = true
  | [], _ => rfl
  | (name, value) :: rest, h => by
      simp only [areSoundFields, Bool.and_eq_true] at h
      obtain ⟨text, htext⟩ := Option.isSome_iff_exists.1 (isSome_render? value h.1)
      obtain ⟨texts, htexts⟩ := Option.isSome_iff_exists.1 (isSome_renderFields? rest h.2)
      simp [renderFields?, htext, htexts]

end

theorem exists_texts {values : List Value} (h : ∀ value ∈ values, value.isSound = true) :
    ∃ texts, values.mapM render? = some texts := by
  induction values with
  | nil => exact ⟨[], rfl⟩
  | cons value rest ih =>
      have hvalue := isSome_render? value (h value List.mem_cons_self)
      obtain ⟨text, htext⟩ := Option.isSome_iff_exists.1 hvalue
      obtain ⟨texts, htexts⟩ := ih fun other hmem => h other (List.mem_cons_of_mem _ hmem)
      exact ⟨text :: texts, by simp [List.mapM_cons, htext, htexts]⟩

end Value

/-! ## What operations give -/

/-- Whether a value is one that operators give. -/
def Value.isPlain : Value → Bool
  | .null | .boolean _ | .number _ | .string _ => true
  | _ => false

namespace Value

variable {target key value : Value}

theorem isPlain_ofDefined {function : String} {result : Option Float}
    (h : ofDefined function result = .ok value) : value.isPlain = true := by
  cases result with
  | none => contradiction
  | some number =>
      cases h
      rfl

theorem isPlain_onNumbers {operator : Operator} {left right : Float}
    (h : operator.onNumbers left right = .ok value) : value.isPlain = true := by
  cases operator with
  | divide | remainder => exact isPlain_ofDefined h
  | other => contradiction
  | add | subtract | multiply | less | greater =>
      cases h
      rfl

theorem isPlain_onStrings {operator : Operator} {left right : String}
    (h : operator.onStrings left right = .ok value) : value.isPlain = true := by
  cases operator with
  | add =>
      cases h
      rfl
  | _ => contradiction

theorem isPlain_apply {operator : Operator} {left right : Value}
    (h : operator.apply left right = .ok value) : value.isPlain = true := by
  unfold Operator.apply at h
  split at h
  · exact isPlain_onNumbers h
  · exact isPlain_onStrings h
  · cases h
    rfl

theorem property_ok {name : String} (h : target.property name = .ok value) :
    ∃ fields, target = .object fields ∧ (name, value) ∈ fields := by
  unfold Value.property at h
  split at h
  · next fields =>
      cases hfound : Fields.get? fields name with
      | none =>
          rw [hfound] at h
          contradiction
      | some found =>
          rw [hfound] at h
          cases h
          exact ⟨fields, rfl, Fields.mem_of_get? hfound⟩
  · contradiction

theorem mem_of_element {elements : List Value} {index : Float}
    (h : element elements index = .ok value) : value ∈ elements := by
  unfold element at h
  split at h
  · split at h
    · contradiction
    · next place _ =>
        split at h
        · next found hfound =>
            cases h
            split at hfound
            · exact List.mem_of_getElem? hfound
            · contradiction
        · contradiction
  · contradiction

theorem index_ok (h : target.index key = .ok value) :
    (∃ elements, target = .array elements ∧ value ∈ elements) ∨
      ∃ fields name, target = .object fields ∧ (name, value) ∈ fields := by
  unfold Value.index at h
  split at h
  · exact .inl ⟨_, rfl, mem_of_element h⟩
  · obtain ⟨fields, hfields, hmem⟩ := property_ok h
    exact .inr ⟨fields, _, hfields, hmem⟩
  · contradiction

end Value

/-- What operations fail with, which is less than what they could. -/
def OperationCause.isForeseen : OperationCause → Bool
  | .numericOperator _ | .outsideDomain _ => false
  | _ => true

/-- Whether an operation fails as the language provides, if it fails. -/
def Provided (result : Except OperationCause Value) : Prop :=
  ∀ cause, result = .error cause → cause.isForeseen = true

namespace Binary64

theorem isSome_divide? (x y : Float) : (divide? x y).isSome = true := by
  unfold divide? quotient?
  by_cases hzero : isZero y = true
  · rw [if_pos hzero]
    split <;> rfl
  · simp [hzero]

/-- A remainder is only asked for where it is defined. -/
theorem isSome_remainder? (x y : Float) : (remainder? x y).isSome = true := by
  unfold remainder?
  split
  · rfl
  · next hguard =>
      simp only [Bool.or_eq_true, not_or, Bool.not_eq_true, isZero, isInfinite] at hguard
      unfold exactRemainder?
      split
      · rfl
      · rfl
      · next hx _ => simp [hx] at hguard
      · rfl
      · next negative ticks sign divisor hx hy =>
          have hdivisor : divisor ≠ 0 := by simpa [hy] using hguard.1
          rw [if_neg hdivisor]
          rfl

theorem isSome_floor? {x : Float} (h : isReal x = true) : (floor? x).isSome = true := by
  unfold isReal at h
  unfold floor?
  cases hx : ofFloat x with
  | finite => rfl
  | _ => simp [hx] at h

end Binary64

theorem provided_ok (value : Value) : Provided (.ok value) := nofun

theorem provided_error {cause : OperationCause} (h : cause.isForeseen = true) :
    Provided (.error cause) := by
  rintro _ ⟨⟩
  exact h

theorem provided_ofDefined {function : String} {result : Option Float}
    (h : result.isSome = true) : Provided (Value.ofDefined function result) := by
  obtain ⟨value, rfl⟩ := Option.isSome_iff_exists.1 h
  exact provided_ok _

theorem provided_onNumbers {operator : Operator} (h : operator.isKnown = true)
    (left right : Float) : Provided (operator.onNumbers left right) := by
  cases operator with
  | divide => exact provided_ofDefined (Binary64.isSome_divide? left right)
  | remainder => exact provided_ofDefined (Binary64.isSome_remainder? left right)
  | other => contradiction
  | _ => exact provided_ok _

theorem provided_onStrings (operator : Operator) (left right : String) :
    Provided (operator.onStrings left right) := by
  cases operator with
  | add => exact provided_ok _
  | _ => exact provided_error rfl

theorem provided_apply {operator : Operator} (h : operator.isKnown = true)
    (left right : Value) : Provided (operator.apply left right) := by
  unfold Operator.apply
  split
  · exact provided_onNumbers h _ _
  · exact provided_onStrings operator _ _
  · exact provided_ok _

theorem provided_property (target : Value) (key : String) : Provided (target.property key) := by
  unfold Value.property
  split
  · next fields =>
      cases Fields.get? fields key with
      | none => exact provided_error rfl
      | some value => exact provided_ok value
  · exact provided_error rfl

theorem provided_element (elements : List Value) (index : Float) :
    Provided (Value.element elements index) := by
  unfold Value.element
  by_cases hreal : Binary64.isReal index = true
  · obtain ⟨place, hplace⟩ := Option.isSome_iff_exists.1 (Binary64.isSome_floor? hreal)
    rw [if_pos hreal, hplace]
    simp only
    split
    · exact provided_ok _
    · exact provided_error rfl
  · rw [if_neg hreal]
    exact provided_error rfl

theorem provided_index (target key : Value) : Provided (target.index key) := by
  unfold Value.index
  split
  · exact provided_element _ _
  · exact provided_property _ _
  · exact provided_error rfl

end Nomi
