import Nomi.Proofs.Store.Operations
import Nomi.Proofs.Syntax.Alike

/-!
# Values of two runs

Two values are alike when they are the same up to the places in the bodies of
functions, and when these functions were declared in scopes that are seen.
-/

namespace Nomi

namespace Fields

variable {α β : Type} {related : α → β → Prop} {first : Fields α} {second : Fields β}

/-- Whether two lists of fields have the same names with related entries. -/
def Alike (related : α → β → Prop) : Fields α → Fields β → Prop :=
  List.Forall₂ fun a b => a.1 = b.1 ∧ related a.2 b.2

theorem Alike.names (h : Alike related first second) : first.map (·.1) = second.map (·.1) := by
  induction h with
  | nil => rfl
  | cons hentry _ ih => rw [List.map_cons, List.map_cons, hentry.1, ih]

theorem Alike.mono {more : α → β → Prop} (h : Alike related first second)
    (hmore : ∀ a b, related a b → more a b) : Alike more first second :=
  h.imp fun _ _ hentry => ⟨hentry.1, hmore _ _ hentry.2⟩

theorem Alike.get? (h : Alike related first second) (name : String) :
    Option.Rel related (Fields.get? first name) (Fields.get? second name) := by
  induction h with
  | nil => exact .none
  | @cons a b _ _ hentry _ ih =>
      obtain ⟨key, x⟩ := a
      obtain ⟨other, y⟩ := b
      obtain ⟨rfl, hvalue⟩ := hentry
      simp only [Fields.get?, List.lookup_cons] at ih ⊢
      cases name == key with
      | true => exact .some hvalue
      | false => exact ih

theorem Alike.put (h : Alike related first second) (name : String) {a : α} {b : β}
    (hvalue : related a b) : Alike related (first.put name a) (second.put name b) := by
  induction h with
  | nil => exact .cons ⟨rfl, hvalue⟩ .nil
  | @cons x y _ _ hentry hrest ih =>
      obtain ⟨key, x⟩ := x
      obtain ⟨other, y⟩ := y
      obtain ⟨hkey, hold⟩ := hentry
      simp only at hkey hold
      subst hkey
      by_cases hname : key = name
      · simp only [Fields.put, hname, if_true]
        exact .cons ⟨rfl, hvalue⟩ hrest
      · simp only [Fields.put, hname, if_false]
        exact .cons ⟨rfl, hold⟩ ih

theorem Alike.ofList (h : Alike related first second) :
    Alike related (Fields.ofList first) (Fields.ofList second) := by
  have hfold : ∀ {before : Fields α} {after : Fields β}, Alike related before after →
      Alike related (first.foldl (fun fields entry => fields.put entry.1 entry.2) before)
        (second.foldl (fun fields entry => fields.put entry.1 entry.2) after) := by
    induction h with
    | nil => exact fun hfields => hfields
    | @cons x y _ _ hentry _ ih =>
        obtain ⟨key, x⟩ := x
        obtain ⟨other, y⟩ := y
        obtain ⟨rfl, hvalue⟩ := hentry
        exact fun hfields => ih (hfields.put key hvalue)
  exact hfold .nil

end Fields

namespace Value

/-- Whether two values are the same, apart from places that correspond, and hold
functions of seen scopes only. -/
inductive Alike (places : Places) (seen : ScopeId → Prop) : Value → Value → Prop
  | null : Alike places seen .null .null
  | boolean {value : Bool} : Alike places seen (.boolean value) (.boolean value)
  | number {value : Float} : Alike places seen (.number value) (.number value)
  | string {value : String} : Alike places seen (.string value) (.string value)
  | array {xs ys : List Value} (helements : List.Forall₂ (Alike places seen) xs ys) :
      Alike places seen (.array xs) (.array ys)
  | object {xs ys : Fields Value} (hnames : xs.map (·.1) = ys.map (·.1))
      (hvalues : List.Forall₂ (Alike places seen) (xs.map (·.2)) (ys.map (·.2))) :
      Alike places seen (.object xs) (.object ys)
  | function {name : String} {parameters : List String} {xs ys : List Node} {home : ScopeId}
      (hbody : Node.AlikeAll places xs ys) (hhome : seen home) :
      Alike places seen (.function name parameters xs home) (.function name parameters ys home)
  | builtin {callee : Builtin} : Alike places seen (.builtin callee) (.builtin callee)
  | unknown : Alike places seen .unknown .unknown

variable {places : Places} {seen more : ScopeId → Prop}

mutual

theorem Alike.mono (hmore : ∀ id, seen id → more id) :
    ∀ {a b : Value}, Alike places seen a b → Alike places more a b
  | .null, _, .null => .null
  | .boolean _, _, .boolean => .boolean
  | .number _, _, .number => .number
  | .string _, _, .string => .string
  | .array _, _, .array helements => .array (AlikeAll.mono hmore helements)
  | .object fields, _, .object hnames hvalues =>
      .object hnames (AlikeFields.mono hmore fields hvalues)
  | .function .., _, .function hbody hhome => .function hbody (hmore _ hhome)
  | .builtin _, _, .builtin => .builtin
  | .unknown, _, .unknown => .unknown

theorem AlikeAll.mono (hmore : ∀ id, seen id → more id) :
    ∀ {xs ys : List Value}, List.Forall₂ (Alike places seen) xs ys →
      List.Forall₂ (Alike places more) xs ys
  | [], _, .nil => .nil
  | _ :: _, _, .cons hfirst hrest => .cons (Alike.mono hmore hfirst) (AlikeAll.mono hmore hrest)

theorem AlikeFields.mono (hmore : ∀ id, seen id → more id) :
    ∀ (fields : Fields Value) {ys : List Value},
      List.Forall₂ (Alike places seen) (fields.map (·.2)) ys →
      List.Forall₂ (Alike places more) (fields.map (·.2)) ys
  | [], _, .nil => .nil
  | (_, _) :: rest, _, .cons hfirst hrest =>
      .cons (Alike.mono hmore hfirst) (AlikeFields.mono hmore rest hrest)

end

theorem alike_object_iff {xs ys : Fields Value} :
    Alike places seen (.object xs) (.object ys) ↔ Fields.Alike (Alike places seen) xs ys := by
  constructor
  · rintro ⟨⟩
    next hnames hvalues =>
    induction xs generalizing ys with
    | nil =>
        cases ys with
        | nil => exact .nil
        | cons y rest => contradiction
    | cons x others ih =>
        cases ys with
        | nil => contradiction
        | cons y rest =>
            simp only [List.map_cons, List.cons.injEq] at hnames hvalues
            cases hvalues with
            | cons hfirst hrest => exact .cons ⟨hnames.1, hfirst⟩ (ih hnames.2 hrest)
  · intro h
    refine .object h.names ?_
    induction h with
    | nil => exact .nil
    | cons hentry _ ih => exact .cons hentry.2 ih

/-! ## Where functions were declared -/

mutual

/-- The scopes that the functions in a value were declared in. -/
def homes : Value → List ScopeId
  | .array elements => homesOfAll elements
  | .object fields => homesOfFields fields
  | .function _ _ _ home => [home]
  | .null | .boolean _ | .number _ | .string _ | .builtin _ | .unknown => []

def homesOfAll : List Value → List ScopeId
  | [] => []
  | value :: rest => homes value ++ homesOfAll rest

def homesOfFields : List (String × Value) → List ScopeId
  | [] => []
  | (_, value) :: rest => homes value ++ homesOfFields rest

end

mutual

/-- A value is like itself where the scopes of its functions are seen. -/
theorem alike_self : ∀ value : Value, (∀ home ∈ value.homes, seen home) →
    Alike Eq seen value value
  | .null, _ => .null
  | .boolean _, _ => .boolean
  | .number _, _ => .number
  | .string _, _ => .string
  | .array elements, h => .array (alikeAll_self elements h)
  | .object fields, h => .object rfl (alikeFields_self fields h)
  | .function _ _ body home, h =>
      .function (Node.alikeAll_self (fun _ => rfl) body) (h home List.mem_cons_self)
  | .builtin _, _ => .builtin
  | .unknown, _ => .unknown

theorem alikeAll_self : ∀ values : List Value, (∀ home ∈ homesOfAll values, seen home) →
    List.Forall₂ (Alike Eq seen) values values
  | [], _ => .nil
  | value :: rest, h =>
      .cons (alike_self value fun home hmem => h home (List.mem_append_left _ hmem))
        (alikeAll_self rest fun home hmem => h home (List.mem_append_right _ hmem))

theorem alikeFields_self : ∀ fields : Fields Value, (∀ home ∈ homesOfFields fields, seen home) →
    List.Forall₂ (Alike Eq seen) (fields.map (·.2)) (fields.map (·.2))
  | [], _ => .nil
  | (_, value) :: rest, h =>
      .cons (alike_self value fun home hmem => h home (List.mem_append_left _ hmem))
        (alikeFields_self rest fun home hmem => h home (List.mem_append_right _ hmem))

end

mutual

theorem Alike.seen_homes : ∀ {a b : Value}, Alike places seen a b → ∀ home ∈ a.homes, seen home
  | .null, _, _ | .boolean _, _, _ | .number _, _, _ | .string _, _, _ | .builtin _, _, _
  | .unknown, _, _ => fun _ hmem => absurd hmem List.not_mem_nil
  | .array _, _, .array helements => AlikeAll.seen_homes helements
  | .object fields, _, .object _ hvalues => AlikeFields.seen_homes fields hvalues
  | .function .., _, .function _ hhome => fun _ hmem => List.mem_singleton.1 hmem ▸ hhome

theorem AlikeAll.seen_homes : ∀ {xs ys : List Value}, List.Forall₂ (Alike places seen) xs ys →
    ∀ home ∈ homesOfAll xs, seen home
  | [], _, .nil => fun _ hmem => absurd hmem List.not_mem_nil
  | _ :: _, _, .cons hfirst hrest => fun home hmem =>
      (List.mem_append.1 hmem).elim (Alike.seen_homes hfirst home)
        (AlikeAll.seen_homes hrest home)

theorem AlikeFields.seen_homes : ∀ (fields : Fields Value) {ys : List Value},
    List.Forall₂ (Alike places seen) (fields.map (·.2)) ys →
    ∀ home ∈ homesOfFields fields, seen home
  | [], _, .nil => fun _ hmem => absurd hmem List.not_mem_nil
  | (_, _) :: rest, _, .cons hfirst hrest => fun home hmem =>
      (List.mem_append.1 hmem).elim (Alike.seen_homes hfirst home)
        (AlikeFields.seen_homes rest hrest home)

end

mutual

theorem Alike.eq : ∀ {a b : Value}, Alike Eq seen a b → a = b
  | .null, _, .null => rfl
  | .boolean _, _, .boolean => rfl
  | .number _, _, .number => rfl
  | .string _, _, .string => rfl
  | .array _, _, .array helements => by rw [AlikeAll.eq helements]
  | .object fields, .object _, .object hnames hvalues => by
      rw [AlikeFields.eq fields hnames hvalues]
  | .function .., _, .function hbody _ => by rw [Node.AlikeAll.eq hbody]
  | .builtin _, _, .builtin => rfl
  | .unknown, _, .unknown => rfl

theorem AlikeAll.eq : ∀ {xs ys : List Value}, List.Forall₂ (Alike Eq seen) xs ys → xs = ys
  | [], _, .nil => rfl
  | _ :: _, _, .cons hfirst hrest => by rw [Alike.eq hfirst, AlikeAll.eq hrest]

theorem AlikeFields.eq : ∀ (fields : Fields Value) {others : Fields Value},
    fields.map (·.1) = others.map (·.1) →
    List.Forall₂ (Alike Eq seen) (fields.map (·.2)) (others.map (·.2)) → fields = others
  | [], [], _, _ => rfl
  | (name, value) :: rest, (other, found) :: others, hnames, .cons hfirst hrest => by
      simp only [List.map_cons, List.cons.injEq] at hnames
      have hvalue : value = found := Alike.eq hfirst
      rw [hnames.1, hvalue, AlikeFields.eq rest hnames.2 hrest]

end

end Value

end Nomi
