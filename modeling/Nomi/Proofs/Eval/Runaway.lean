import Nomi.Eval.Session
import Nomi.Proofs.Eval.Keeping
import Nomi.Proofs.Syntax.Height

/-!
# Runs that need little depth

Only calls that are made inside of functions can run away.  If the bodies of all
functions of a program are free of calls, so are those of all functions that it ever
stores, passes on or finds, and none of them is higher than the program.  Then a run
goes down the program at most once and from a call down a body at most once more.
-/

namespace Nomi

/-- Whether the functions in a value have bodies of suitable nodes only. -/
inductive Value.Bodied (suitable : Node → Prop) : Value → Prop
  | null : Bodied suitable .null
  | boolean {value : Bool} : Bodied suitable (.boolean value)
  | number {value : Float} : Bodied suitable (.number value)
  | string {value : String} : Bodied suitable (.string value)
  | array {elements : List Value} (h : ∀ value ∈ elements, Bodied suitable value) :
      Bodied suitable (.array elements)
  | object {fields : Fields Value} (h : ∀ entry ∈ fields, Bodied suitable entry.2) :
      Bodied suitable (.object fields)
  | function {name : String} {parameters : List String} {body : List Node} {home : ScopeId}
      (h : ∀ node ∈ body, suitable node) : Bodied suitable (.function name parameters body home)
  | builtin {callee : Builtin} : Bodied suitable (.builtin callee)
  | unknown : Bodied suitable .unknown

namespace Value

variable {suitable : Node → Prop}

theorem bodied_of_isPlain {value : Value} (h : value.isPlain = true) :
    Bodied suitable value := by
  cases value with
  | null => exact .null
  | boolean => exact .boolean
  | number => exact .number
  | string => exact .string
  | _ => contradiction

theorem bodied_array_iff {elements : List Value} :
    Bodied suitable (.array elements) ↔ ∀ value ∈ elements, Bodied suitable value := by
  constructor
  · rintro ⟨⟩
    assumption
  · exact .array

theorem bodied_object_iff {fields : Fields Value} :
    Bodied suitable (.object fields) ↔ ∀ entry ∈ fields, Bodied suitable entry.2 := by
  constructor
  · rintro ⟨⟩
    assumption
  · exact .object

theorem bodied_function_iff {name : String} {parameters : List String} {body : List Node}
    {home : ScopeId} :
    Bodied suitable (.function name parameters body home) ↔ ∀ node ∈ body, suitable node := by
  constructor
  · rintro ⟨⟩
    assumption
  · exact .function

end Value

open Eval Value

/-- Whether a tree may be evaluated within a depth: it has room for itself and, if there
are calls in it, for the body of the highest function. -/
structure Suited (highest reserve depth : Nat) (node : Node) : Prop where
  low : node.height ≤ highest
  room : node.height + reserve < depth
  outside : node.callsOutside = true
  calls : node.isCallFree = true ∨ highest ≤ reserve

def Node.IsBodyWithin (highest : Nat) (node : Node) : Prop :=
  node.isCallFree = true ∧ node.height ≤ highest

variable {highest reserve depth lower : Nat} {node part : Node}

theorem Suited.below (h : Suited highest reserve depth node) (hpart : part ∈ node.parts)
    (hlower : depth ≤ lower + 1) : Suited highest reserve lower part := by
  have hheight := Node.height_lt_of_part hpart
  have hroom := h.room
  have hlow := h.low
  refine ⟨by omega, by omega, Node.everywhere_part h.outside hpart, ?_⟩
  exact h.calls.imp_left fun hfree => Node.everywhere_part hfree hpart

/-- A body that is called has the reserve as its room and needs none itself. -/
theorem Suited.body (h : Suited highest reserve (depth + 1) node)
    (hcall : node.isCallFree = false) (hpart : part.IsBodyWithin highest) :
    Suited highest 0 depth part := by
  obtain ⟨hfree, hlow⟩ := hpart
  have hreserve : highest ≤ reserve := by simpa [hcall] using h.calls
  have hheight : 0 < node.height := Node.height_pos_of_call hcall
  have hroom := h.room
  exact ⟨hlow, by omega, Node.callsOutside_of_isCallFree hfree, .inl hfree⟩

/-- What is evaluated for a node is a part of it, or a part of one of its entries. -/
theorem Node.part_of_operand (h : .node part ∈ node.operands) :
    part ∈ node.parts ∨ ∃ entry ∈ node.parts, part ∈ entry.parts := by
  cases node with
  | object position properties =>
      obtain ⟨entry, hentry, hoperand⟩ := List.mem_flatMap.1 h
      refine .inr ⟨entry, hentry, ?_⟩
      cases entry with
      | property position key value =>
          rcases Operand.mem_ofEntry_property hoperand with hname | ⟨hsame, hpresent⟩
          · contradiction
          · cases hsame
            simp [Node.parts, hpresent]
      | declaration position name constant value | assignment position target value =>
          obtain ⟨hsame, hpresent⟩ : Operand.node part = .node value ∧ value.isAbsent = false :=
            Operand.mem_ofOptional (by simpa [Operand.ofEntry] using hoperand)
          cases hsame
          simp [Node.parts, hpresent]
      | _ => simp [Operand.ofEntry] at hoperand
  | declaration position name constant value =>
      obtain ⟨hsame, hpresent⟩ := Operand.mem_ofOptional h
      cases hsame
      simp [Node.parts, hpresent]
  | assignment position target value => cases target <;> simp_all [Node.operands, Node.parts]
  | member position owner key computed =>
      cases computed <;> simp_all [Node.operands, Node.parts]
  | _ => simp_all [Node.operands, Node.parts]

/-- Runs stay within the limit of depth, as long as all functions that they come by have
suitable bodies. -/
def Invariant.withinDepth (highest : Nat) : Invariant :=
  .ofValues (Bodied (Node.IsBodyWithin highest)) (· ≠ .tooDeep)

theorem lawful_withinDepth (highest : Nat) (host : Host) :
    (Invariant.withinDepth highest).Lawful host := by
  apply Invariant.lawful_ofValues bodied_of_isPlain bodied_array_iff bodied_object_iff
  · nofun
  · nofun
  · nofun
  · cases host.ending <;> nofun

theorem covers_withinDepth (highest : Nat) (host : Host) :
    (Invariant.withinDepth highest).Covers host
      fun depth _ _ node => ∃ reserve, Suited highest reserve depth node where
  later h _ := h
  shallow := fun ⟨_, h⟩ => absurd h.room (Nat.not_lt_zero _)
  operands := by
    rintro depth size scope node ⟨reserve, h⟩ operand hmem
    cases operand with
    | name key => trivial
    | fault cause => nofun
    | node part =>
        refine ⟨reserve, ?_⟩
        -- Entries are not evaluated themselves, so their values are two levels lower.
        rcases Node.part_of_operand hmem with hpart | ⟨entry, hentry, hpart⟩
        · exact h.below hpart (Nat.le_refl _)
        · exact (h.below hentry (Nat.le_refl _)).below hpart (Nat.le_succ _)
  failure _ _ hfailure := by
    rcases Action.failure?_cases hfailure with ⟨cause, rfl⟩ | ⟨cause, position, rfl⟩ <;> nofun
  declares _ _ := trivial
  function := by
    rintro depth size scope position name parameters body ⟨reserve, h⟩
    refine bodied_function_iff.2 fun part hpart => ?_
    have hlower : Suited highest reserve depth part := h.below hpart (Nat.le_refl _)
    exact ⟨Node.isCallFree_of_callsOutside h.outside part hpart, hlower.low⟩
  body := fun ⟨_, h⟩ hfunction _ _ part hpart =>
    ⟨0, h.body Node.isCallFree_call (bodied_function_iff.1 hfunction part hpart)⟩

theorem bodied_initial (suitable : Node → Prop) : Store.initial.Every (Bodied suitable) := by
  apply Store.every_initial
  simp only [Store.predeclared, List.forall_mem_cons]
  exact ⟨.boolean, .boolean, .null, .builtin, .builtin, by simp⟩

/--
Only calls that are made inside of functions can run away.

A program whose functions have no calls in their bodies never exceeds a limit above twice
its height: it may store its functions, pass them on and call them wherever else it likes.
-/
theorem within_twice_height (host : Host) {program : Node} (h : program.callsOutside = true)
    (input : List String) {limit : Nat} (hlimit : 2 * program.height < limit) :
    ((evaluate host limit Store.globalId program).outcome (.initial input)).1 ≠
      .error .tooDeep := by
  have hsuited : Suited program.height program.height limit program :=
    ⟨Nat.le_refl _, by omega, h, .inr (Nat.le_refl _)⟩
  have hkeeps : (Invariant.withinDepth program.height).Keeps 0 _
      (evaluate host limit Store.globalId program) _ :=
    Invariant.keeps_evaluate (lawful_withinDepth _ host) (covers_withinDepth _ host) ⟨_, hsuited⟩
  have hinitial : (Invariant.withinDepth program.height).At 0 (.initial input) :=
    ⟨Nat.zero_le _, bodied_initial _⟩
  unfold outcome
  cases hresult : evaluate host limit Store.globalId program (.initial input) with
  | ok value next => nofun
  | error failure next =>
      intro hfailure
      exact (hkeeps.error _ hinitial failure next hresult).2 (Except.error.inj hfailure)

/-- A function that is stored in an object and called with itself. -/
theorem within_twice_height_stored :
    let host : Host := ⟨0, .cancels⟩
    let f : Node := .identifier .start "f"
    let program : Node := .program .start
      [.function .start "f" ["x"] [.identifier .start "x"],
        .declaration .start "o" true (.object .start [.property .start "f" .absent]),
        .call .start (.member .start (.identifier .start "o") f false) [f]]
    program.callsOutside = true ∧ 2 * program.height < 9 ∧
      ((evaluate host 9 Store.globalId program).outcome (.initial [])).1 ≠ .error .tooDeep := by
  intro host f program
  have houtside : program.callsOutside = true := by decide
  have hlimit : 2 * program.height < 9 := by decide
  exact ⟨houtside, hlimit, within_twice_height host houtside [] hlimit⟩

end Nomi
