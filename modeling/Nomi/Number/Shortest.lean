import Nomi.Number.Decimal

/-!
# The shortest digits that read back

For each number of digits the two neighbours of a value on that decimal grid
are tried, the nearer one first.  The first grid with a neighbour that rounds
back to the same float gives the digits.  Seventeen digits always suffice for
binary64; the exact value stands behind the search so that the result reads
back whatever the search finds.
-/

namespace Nomi.Decimal

attribute [local instance (high)] instPowNat

/-- The least power of ten above `numerator / denominator`, for a positive
quotient. -/
def scale (numerator denominator : Nat) : Int :=
  if denominator ≤ numerator then
    length (numerator / denominator)
  else
    1 - (length ((denominator - 1) / numerator) : Int)

/-- The quotient `ticks / (unit * 10 ^ exponent)` as a fraction of naturals. -/
def onGrid (ticks : Nat) (exponent : Int) : Nat × Nat :=
  match exponent with
  | .ofNat up => (ticks, Binary64.unit * 10 ^ up)
  | .negSucc down => (ticks * 10 ^ (down + 1), Binary64.unit)

/-- The decimals with the given exponent next to a magnitude, the nearer one
first; of two equally near ones the even one is first. -/
def neighbours (ticks : Nat) (exponent : Int) : List Decimal :=
  let (numerator, denominator) := onGrid ticks exponent
  let near := roundEven numerator denominator
  let far := 2 * (numerator / denominator) + 1 - near
  [⟨near, exponent⟩, ⟨far, exponent⟩]

def readsBack (ticks : Nat) (d : Decimal) : Bool :=
  (d.toFloat false).toBits == (Binary64.nearest false ticks 1).toBits

def exact (ticks : Nat) : Decimal :=
  ⟨ticks * 5 ^ Binary64.unitPower, -(Binary64.unitPower : Int)⟩

/-- The first neighbour that reads back among grids of one to seventeen
digits. -/
def search (ticks : Nat) : Option Decimal :=
  let top := scale ticks Binary64.unit
  (List.range 17).findSome? fun fewer =>
    (neighbours ticks (top - (fewer + 1 : Nat))).find? (readsBack ticks)

/-- The decimal of fewest digits that rounds to a magnitude of `ticks`, and of
those the nearest to it. -/
def shortest (ticks : Nat) : Decimal :=
  if ticks = 0 then ⟨0, 0⟩
  else
    let found := (search ticks).getD (exact ticks)
    trim found.digits found.exponent

end Nomi.Decimal
