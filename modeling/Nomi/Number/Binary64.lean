/-!
# Binary64 numbers as whole counts of one tick

Every finite binary64 number is a whole multiple of the least positive one,
`2 ^ -1074`.  The multiple is called the number of ticks here, so that a finite
number is a sign and a natural number, and rounding, remainders and the choice
of digits become questions about naturals.
-/

namespace Nomi

/-- What the bits of a float stand for. -/
inductive Binary64 where
  | nan
  | infinite (negative : Bool)
  /-- The number `± ticks / 2 ^ 1074`. -/
  | finite (negative : Bool) (ticks : Nat)
  deriving DecidableEq, Repr

namespace Binary64

-- Powers of naturals are `Nat`'s own also where a monoid's power is in scope.
attribute [local instance (high)] instPowNat

def fractionWidth : Nat :=
  52

def exponentWidth : Nat :=
  11

/-- The exponent field of what is not finite. -/
def exponentLimit : Nat :=
  2 ^ exponentWidth - 1

/-- The power of two that is one unit, counted in ticks. -/
def unitPower : Nat :=
  1074

/-- How many ticks make one unit. -/
def unit : Nat :=
  2 ^ unitPower

/-- The ticks of the number with biased exponent `exponent` and fraction field
`fraction`.  The least two exponents share the tick as their spacing, and each
further exponent doubles it. -/
def ticksOf (exponent fraction : Nat) : Nat :=
  match exponent with
  | 0 => fraction
  | steps + 1 => (2 ^ fractionWidth + fraction) * 2 ^ steps

def signBit : Nat :=
  2 ^ (exponentWidth + fractionWidth)

/-- Reads the sign bit, the eleven exponent bits and the fifty-two fraction
bits. -/
def ofBits (bits : Nat) : Binary64 :=
  let negative := decide (signBit ≤ bits)
  let exponent := bits / 2 ^ fractionWidth % 2 ^ exponentWidth
  let fraction := bits % 2 ^ fractionWidth
  if exponent = exponentLimit then
    if fraction = 0 then .infinite negative else .nan
  else
    .finite negative (ticksOf exponent fraction)

def ofFloat (x : Float) : Binary64 :=
  ofBits x.toBits.toNat

/-- The magnitude field of an infinity, just above that of every finite
number. -/
def infinityField : Nat :=
  exponentLimit * 2 ^ fractionWidth

def withSign (negative : Bool) (field : Nat) : Float :=
  Float.ofBits (UInt64.ofNat (if negative then signBit + field else field))

def notANumber : Float :=
  Float.ofBits (UInt64.ofNat (infinityField + 2 ^ (fractionWidth - 1)))

end Binary64

end Nomi
