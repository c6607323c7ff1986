import Nomi.Number.Shortest

/-!
# How a float is written

The digits of a float are the shortest that read back, or for whole numbers all
of them where a layout asks for that.  A layout says where positional notation
begins and ends and how the special values are spelled.
-/

namespace Nomi

/-- The decisions of one way to write floats. -/
structure Layout where
  /-- The least power of ten of a leading digit that is written positionally. -/
  plainFrom : Int
  /-- The first power of ten of a leading digit that is no longer written
  positionally. -/
  plainBelow : Int
  /-- Whether positional whole numbers show every digit of their exact value
  instead of the shortest digits filled up with zeros. -/
  exactWhole : Bool
  /-- What follows a positional whole number. -/
  wholeMark : String
  /-- The least number of digits of an exponent. -/
  exponentWidth : Nat
  /-- Whether the sign of a negative zero is shown. -/
  signedZero : Bool
  nan : String
  infinity : String

namespace Layout

def whole? (ticks : Nat) : Option Nat :=
  if ticks % Binary64.unit = 0 then some (ticks / Binary64.unit) else none

/-- The digits that a layout shows for a magnitude. -/
def select (layout : Layout) (ticks : Nat) : Decimal :=
  match whole? ticks with
  | some n =>
      if layout.exactWhole ∧ (Decimal.length n : Int) ≤ layout.plainBelow then ⟨n, 0⟩
      else Decimal.shortest ticks
  | none => Decimal.shortest ticks

def zeros (count : Nat) : List Char :=
  List.replicate count '0'

def positional (layout : Layout) (d : Decimal) : List Char :=
  let digits := Decimal.digitsOf d.digits
  match d.exponent with
  | .ofNat up => digits ++ zeros up ++ layout.wholeMark.toList
  | .negSucc down =>
      let places := down + 1
      if places < digits.length then
        digits.take (digits.length - places) ++ '.' :: digits.drop (digits.length - places)
      else
        '0' :: '.' :: zeros (places - digits.length) ++ digits

/-- The digits with the point after the first one, and the exponent with its
sign. -/
def scientific (layout : Layout) (d : Decimal) : List Char :=
  let leading := d.leading
  let exponent := Decimal.digitsOf leading.natAbs
  let fraction :=
    match (Decimal.digitsOf d.digits).drop 1 with
    | [] => []
    | rest => '.' :: rest
  (Decimal.digitsOf d.digits).take 1 ++ fraction
    ++ 'e' :: (if leading < 0 then '-' else '+')
    :: zeros (layout.exponentWidth - exponent.length) ++ exponent

def place (layout : Layout) (d : Decimal) : List Char :=
  if layout.plainFrom ≤ d.leading ∧ d.leading < layout.plainBelow then
    layout.positional d
  else
    layout.scientific d

def write (layout : Layout) (x : Float) : String :=
  match Binary64.ofFloat x with
  | .nan => layout.nan
  | .infinite negative => (if negative then "-" else "") ++ layout.infinity
  | .finite negative ticks =>
      let sign := if negative ∧ (ticks ≠ 0 ∨ layout.signedZero) then "-" else ""
      sign ++ String.ofList (layout.place (layout.select ticks))

end Layout

end Nomi
