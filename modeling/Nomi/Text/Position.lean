/-!
# Places in a source

Lines and columns count from one.  A place is an integer pair, because tokens
and syntax trees that were not read from a source may carry any numbers.
-/

namespace Nomi

structure Position where
  line : Int
  column : Int
  deriving DecidableEq, Repr

namespace Position

def start : Position :=
  ⟨1, 1⟩

/-- The place of things that were not read from a source. -/
def nowhere : Position :=
  ⟨0, 0⟩

/-- The place after a character.  Only a line feed begins a new line. -/
def after (position : Position) (c : Char) : Position :=
  if c = '\n' then ⟨position.line + 1, 1⟩ else ⟨position.line, position.column + 1⟩

@[simp] theorem after_lineFeed (position : Position) :
    position.after '\n' = ⟨position.line + 1, 1⟩ := rfl

theorem after_of_ne {c : Char} (position : Position) (h : c ≠ '\n') :
    position.after c = ⟨position.line, position.column + 1⟩ :=
  if_neg h

end Position

end Nomi
