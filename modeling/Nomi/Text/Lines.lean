/-!
# Lines of a text

Texts that come from outside have their line breaks unified first.  A text is
then cut at the characters that a reader takes for breaks; the text after the
last break is a line only if it is not empty.
-/

namespace Nomi.Lines

/-- Turns every carriage return, with the line feed after it if there is one,
into a line feed. -/
def unify : List Char → List Char
  | '\r' :: '\n' :: rest => '\n' :: unify rest
  | '\r' :: rest => '\n' :: unify rest
  | c :: rest => c :: unify rest
  | [] => []

def cut (isBreak : Char → Bool) : List Char → List (List Char)
  | [] => []
  | c :: rest =>
      if isBreak c then [] :: cut isBreak rest
      else
        match cut isBreak rest with
        | [] => [[c]]
        | line :: lines => (c :: line) :: lines

/-- The characters that end a line on a page: line and page feeds, separators
of files, groups and records, and the line breaks of other scripts. -/
def isPageBreak (c : Char) : Bool :=
  ['\n', '\r', '\x0b', '\x0c', '\x1c', '\x1d', '\x1e', '\u0085', '\u2028', '\u2029'].contains c

def ofPage (text : List Char) : List (List Char) :=
  cut isPageBreak (unify text)

/-- The lines that a program can take from a text. -/
def ofInput (text : String) : List String :=
  (cut (· = '\n') (unify text.toList)).map String.ofList

end Nomi.Lines
