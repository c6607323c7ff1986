import Nomi.Text.Printable

/-!
# Quoted text

Text is quoted with `'`, or with `"` when it holds a `'` and no `"`.  The quote
itself and the backslash are escaped, line breaks and tabulators have letters,
and every other character that is not shown as itself is written by its code
point in two, four or eight hexadecimal digits.
-/

namespace Nomi.Quoted

def hexDigit (n : Nat) : Char :=
  if n < 10 then Char.ofNat ('0'.toNat + n) else Char.ofNat ('a'.toNat + (n - 10))

/-- The last `width` hexadecimal digits of `n`. -/
def hex : Nat → Nat → List Char
  | 0, _ => []
  | width + 1, n => hex width (n / 16) ++ [hexDigit (n % 16)]

def codePoint (c : Char) : List Char :=
  let n := c.toNat
  if n < 0x100 then '\\' :: 'x' :: hex 2 n
  else if n < 0x10000 then '\\' :: 'u' :: hex 4 n
  else '\\' :: 'U' :: hex 8 n

def quoteOf (text : List Char) : Char :=
  if text.contains '\'' && !text.contains '"' then '"' else '\''

def escape (quote c : Char) : List Char :=
  if c = quote ∨ c = '\\' then ['\\', c]
  else if c = '\n' then ['\\', 'n']
  else if c = '\r' then ['\\', 'r']
  else if c = '\t' then ['\\', 't']
  else if Printable.isPrintable c then [c]
  else codePoint c

def body (text : List Char) : List Char :=
  text.flatMap (escape (quoteOf text))

def write (text : List Char) : List Char :=
  quoteOf text :: body text ++ [quoteOf text]

end Nomi.Quoted
