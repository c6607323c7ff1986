import Nomi.Number.Rounding

/-!
# Quotients, remainders and whole parts

A quotient, a remainder and a whole part are defined on some floats only.  The
operations of the language look at their operands first and never ask for one
where it is not defined.  The remainder of a division truncated toward zero is a
remainder of ticks, so it is exact and needs no rounding.  Sums, products and
quotients are those of the floats themselves.
-/

namespace Nomi.Binary64

def isReal (x : Float) : Bool :=
  match ofFloat x with
  | .finite .. => true
  | _ => false

def isZero (x : Float) : Bool :=
  match ofFloat x with
  | .finite _ ticks => ticks = 0
  | _ => false

def isInfinite (x : Float) : Bool :=
  match ofFloat x with
  | .infinite _ => true
  | _ => false

def isNotANumber (x : Float) : Bool :=
  match ofFloat x with
  | .nan => true
  | _ => false

def isNegative (x : Float) : Bool :=
  match ofFloat x with
  | .nan => false
  | .infinite negative | .finite negative _ => negative

/-- The quotient of two floats.  There is none by zero. -/
def quotient? (x y : Float) : Option Float :=
  if isZero y then none else some (x / y)

/-- The remainder of `x` by `y`, with the sign of `x`.  There is none of an
infinity nor by zero; an infinite `y` leaves `x` as it is. -/
def exactRemainder? (x y : Float) : Option Float :=
  match ofFloat x, ofFloat y with
  | .nan, _ | _, .nan => some notANumber
  | .infinite _, _ => none
  | .finite .., .infinite _ => some x
  | .finite negative ticks, .finite _ divisor =>
      if divisor = 0 then none else some (nearest negative (ticks % divisor) 1)

/-- The greatest whole number that is at most `x`.  There is none if `x` is not
real. -/
def floor? (x : Float) : Option Int :=
  match ofFloat x with
  | .finite negative ticks => some ((if negative then -(ticks : Int) else ticks) / unit)
  | _ => none

/-- The quotient of two numbers.  By zero it is an infinity with the sign of
both, or not a number when `x` is zero or not a number. -/
def divide? (x y : Float) : Option Float :=
  if isZero y then
    if isZero x || isNotANumber x then some notANumber
    else some (withSign (isNegative x != isNegative y) infinityField)
  else
    quotient? x y

/-- The remainder of two numbers.  By zero and of an infinity it is not a
number. -/
def remainder? (x y : Float) : Option Float :=
  if isZero y || isInfinite x then some notANumber else exactRemainder? x y

end Nomi.Binary64
