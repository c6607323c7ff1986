import Nomi.Eval.Failure

/-!
# The world of a run

Evaluation changes a store, takes lines of input and writes lines of output.
All three are kept when it fails.
-/

namespace Nomi

/-- What the end of the input means to a read. -/
inductive Ending where
  | cancels
  | interrupts
  deriving DecidableEq, Repr

/-- What a run takes from outside besides its lines of input.  Only hosts whose clock
stands still are modelled: one reading is that of every call of `time` in a run or in a
session, where a host with a running clock is asked anew at each. -/
structure Host where
  /-- The time of day in milliseconds. -/
  clock : Float
  ending : Ending

structure World where
  store : Store
  /-- The lines of input that are left. -/
  input : List String
  /-- The lines written so far, first line first. -/
  output : Array String

namespace World

def initial (input : List String) : World :=
  ⟨.initial, input, #[]⟩

end World

/-- A computation that changes the world. -/
abbrev Eval :=
  EStateM Failure World

namespace Eval

theorem bind_apply {α β : Type} (first : Eval α) (rest : α → Eval β) (world : World) :
    (first >>= rest) world =
      match first world with
      | .ok value next => rest value next
      | .error failure next => .error failure next := by
  show EStateM.bind first rest world = _
  unfold EStateM.bind
  split <;> simp_all

theorem bind_ok {α β : Type} {first : Eval α} {rest : α → Eval β} {world next : World}
    {result : β} (h : (first >>= rest) world = .ok result next) :
    ∃ value middle, first world = .ok value middle ∧ rest value middle = .ok result next := by
  rw [bind_apply] at h
  split at h
  · next value middle hfirst => exact ⟨value, middle, hfirst, h⟩
  · contradiction

theorem bind_error {α β : Type} {first : Eval α} {rest : α → Eval β} {world next : World}
    {failure : Failure} (h : (first >>= rest) world = .error failure next) :
    first world = .error failure next ∨
      ∃ value middle, first world = .ok value middle ∧ rest value middle = .error failure next := by
  rw [bind_apply] at h
  split at h
  · next value middle hfirst => exact .inr ⟨value, middle, hfirst, h⟩
  · next failure middle hfirst =>
      cases h
      exact .inl hfirst

def ofStore {α : Type} (reading : Store → Except ScopeError α) : Eval α :=
  fun world =>
    match reading world.store with
    | .ok result => .ok result world
    | .error error => .error (.scope error) world

def changeStore (change : Store → Except ScopeError Store) : Eval Unit :=
  fun world =>
    match change world.store with
    | .ok store => .ok () { world with store }
    | .error error => .error (.scope error) world

theorem changeStore_ok {change : Store → Except ScopeError Store} {world next : World}
    {result : Unit} (h : changeStore change world = .ok result next) :
    ∃ store, change world.store = .ok store ∧ next = { world with store } := by
  unfold changeStore at h
  split at h
  · next store hstore =>
      cases h
      exact ⟨store, hstore, rfl⟩
  · contradiction

/-- A change that is refused leaves the world as it was. -/
theorem changeStore_error {change : Store → Except ScopeError Store} {world next : World}
    {failure : Failure} (h : changeStore change world = .error failure next) : next = world := by
  unfold changeStore at h
  split at h
  · contradiction
  · cases h
    rfl

def fail {α : Type} (cause : OperationCause) (position : Position) : Eval α :=
  throw (.operation cause position)

def takeLine (host : Host) : Eval String :=
  fun world =>
    match world.input with
    | line :: rest => .ok line { world with input := rest }
    | [] =>
        match host.ending with
        | .cancels => .error .cancelled world
        | .interrupts => .error .interrupted world

def writeLine (line : String) : Eval Unit :=
  modify fun world => { world with output := world.output.push line }

end Eval

end Nomi
