/-!
# Escapes in string literals

A backslash and the character after it stand for one character.  Two letters
name a line break and a tabulator; every other character stands for itself.
-/

namespace Nomi.Escape

/-- The character that a backslash before `c` stands for. -/
def meaning (c : Char) : Char :=
  match c with
  | 'n' => '\n'
  | 't' => '\t'
  | c => c

/-- The text of a literal's body.  A last backslash with nothing after it
stands for itself. -/
def decode : List Char → List Char
  | '\\' :: c :: rest => meaning c :: decode rest
  | c :: rest => c :: decode rest
  | [] => []

end Nomi.Escape
