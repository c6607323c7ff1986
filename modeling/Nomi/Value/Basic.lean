import Nomi.Syntax.Node

/-!
# Values

What expressions evaluate to.  A function carries its body and the scope it was
declared in; objects keep their fields in the order in which they were first
written.
-/

namespace Nomi

/-- Named entries in order of first writing. -/
abbrev Fields (α : Type) :=
  List (String × α)

namespace Fields

variable {α : Type}

def get? (fields : Fields α) (name : String) : Option α :=
  fields.lookup name

/-- Writes an entry.  A name that is there keeps its place, a new one goes to
the end. -/
def put (fields : Fields α) (name : String) (value : α) : Fields α :=
  match fields with
  | [] => [(name, value)]
  | (other, old) :: rest =>
      if other = name then (name, value) :: rest else (other, old) :: put rest name value

/-- The name written has the value written, and every other name keeps its
own. -/
theorem get?_put (fields : Fields α) (name other : String) (value : α) :
    (fields.put name value).get? other =
      if other = name then some value else fields.get? other := by
  induction fields with
  | nil =>
      by_cases h : other = name
      · simp [put, get?, h]
      · have hb : (other == name) = false := beq_eq_false_iff_ne.2 h
        simp [put, get?, List.lookup_cons, hb, h]
  | cons first rest ih =>
      obtain ⟨key, old⟩ := first
      simp only [get?] at ih
      by_cases hkey : key = name
      · subst hkey
        by_cases h : other = key
        · simp [put, get?, h]
        · have hb : (other == key) = false := beq_eq_false_iff_ne.2 h
          simp [put, get?, List.lookup_cons, hb, h]
      · by_cases h : other = key
        · subst h
          simp [put, get?, hkey]
        · have hb : (other == key) = false := beq_eq_false_iff_ne.2 h
          simp [put, get?, hkey, List.lookup_cons, hb, ih]

/-- A name that is there keeps its place, a new one goes to the end. -/
theorem names_put (fields : Fields α) (name : String) (value : α) :
    (fields.put name value).map (·.1) =
      if name ∈ fields.map (·.1) then fields.map (·.1) else fields.map (·.1) ++ [name] := by
  induction fields with
  | nil => simp [put]
  | cons first rest ih =>
      obtain ⟨key, old⟩ := first
      by_cases hkey : key = name
      · simp [put, hkey]
      · have hne : ¬name = key := fun h => hkey h.symm
        simp only [put, hkey, if_false, List.map_cons, ih, List.mem_cons, hne, false_or]
        split <;> rfl

def ofList (writings : List (String × α)) : Fields α :=
  writings.foldl (fun fields (name, value) => fields.put name value) []

end Fields

/-- The number of a scope in the order of creation. -/
abbrev ScopeId :=
  Nat

/-- The functions that every program finds declared. -/
inductive Builtin where
  | print
  | time
  /-- A function of another name, which no program can call. -/
  | other (name : String)
  deriving DecidableEq, Repr

namespace Builtin

def name : Builtin → String
  | .print => "print"
  | .time => "time"
  | .other name => name

def ofName (name : String) : Builtin :=
  match name with
  | "print" => .print
  | "time" => .time
  | name => .other name

end Builtin

inductive Value where
  | null
  | boolean (value : Bool)
  | number (value : Float)
  | string (value : String)
  | array (elements : List Value)
  | object (fields : List (String × Value))
  | function (name : String) (parameters : List String) (body : List Node) (home : ScopeId)
  | builtin (callee : Builtin)
  /-- A value of no type of the language.  No program makes one. -/
  | unknown
  deriving Inhabited, Repr

namespace Value

def typeName : Value → String
  | .null => "null"
  | .boolean _ => "boolean"
  | .number _ => "number"
  | .string _ => "string"
  | .array _ => "array"
  | .object _ => "object"
  | .function .. => "function"
  | .builtin _ => "native-fn"
  | .unknown => "unknown"

mutual

/-- Whether two values are equal.  Numbers are compared as floats, fields
without regard to their order, and functions by name, parameters and body. -/
def same : Value → Value → Bool
  | .null, .null => true
  | .boolean a, .boolean b => a == b
  | .number a, .number b => a == b
  | .string a, .string b => a == b
  | .array a, .array b => sameAll a b
  | .object a, .object b => a.length == b.length && sameFields a b
  | .function a ps x _, .function b qs y _ => a == b && ps == qs && Node.sameAll x y
  | .builtin a, .builtin b => a.name == b.name
  | _, _ => false

def sameAll : List Value → List Value → Bool
  | [], [] => true
  | a :: as, b :: bs => same a b && sameAll as bs
  | _, _ => false

/-- Whether every field has an equal one of its name among the others. -/
def sameFields : List (String × Value) → List (String × Value) → Bool
  | [], _ => true
  | (name, a) :: rest, others =>
      (match others.lookup name with
        | some b => same a b
        | none => false) && sameFields rest others

end

end Value

end Nomi
