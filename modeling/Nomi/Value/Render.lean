import Nomi.Number.Layout
import Nomi.Value.Basic

/-!
# The text of a value

Scalars are written as themselves and containers entry by entry.  Numbers have
no exponent from `1e-6` up to below `1e21`.
-/

namespace Nomi.Value

/-- How programs see numbers: whole numbers below `1e21` with all their digits,
other numbers with the fewest digits that read back. -/
def numberLayout : Layout where
  plainFrom := -6
  plainBelow := 21
  exactWhole := true
  wholeMark := ""
  exponentWidth := 1
  signedZero := false
  nan := "NaN"
  infinity := "Infinity"

mutual

/-- The text of a value; a value of no type has none. -/
def render? : Value → Option String
  | .null => some "null"
  | .boolean value => some (if value then "true" else "false")
  | .number value => some (numberLayout.write value)
  | .string value => some value
  | .array elements =>
      (renderAll? elements).map fun texts => "[" ++ ", ".intercalate texts ++ "]"
  | .object fields =>
      (renderFields? fields).map fun texts =>
        if texts.isEmpty then "\x7b\x7d" else "\x7b " ++ ", ".intercalate texts ++ " \x7d"
  | .function name _ _ _ => some ("<fn " ++ name ++ ">")
  | .builtin callee => some ("<native fn " ++ callee.name ++ ">")
  | .unknown => none

def renderAll? : List Value → Option (List String)
  | [] => some []
  | value :: rest => do
      let text ← render? value
      let texts ← renderAll? rest
      return text :: texts

/-- The texts of fields, each after its name and a colon. -/
def renderFields? : List (String × Value) → Option (List String)
  | [] => some []
  | (name, value) :: rest => do
      let text ← render? value
      let texts ← renderFields? rest
      return (name ++ ": " ++ text) :: texts

end

end Nomi.Value
