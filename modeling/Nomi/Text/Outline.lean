import Nomi.Text.Pieces

/-!
# Laying out records and lists

An outline is written on one line where it fits the page, and otherwise with
one field or element a line, each aligned after the opening bracket, and a text
in quotes with one piece a line.  What follows an outline on its last line
counts against the width as well; that is the allowance.
-/

namespace Nomi

inductive Outline where
  | text (content : String)
  /-- A text to be written in quotes. -/
  | quote (content : String)
  | record (name : String) (fields : List (String × Outline))
  | list (items : List Outline)
  deriving Inhabited, Repr

namespace Outline

mutual

def oneLine : Outline → String
  | .text content => content
  | .quote content => String.ofList (Quoted.write content.toList)
  | .record name fields => name ++ "(" ++ ", ".intercalate (fieldLines fields) ++ ")"
  | .list items => "[" ++ ", ".intercalate (itemLines items) ++ "]"

def itemLines : List Outline → List String
  | [] => []
  | item :: rest => oneLine item :: itemLines rest

/-- Every field on one line, after its name. -/
def fieldLines : List (String × Outline) → List String
  | [] => []
  | (name, value) :: rest => (name ++ "=" ++ oneLine value) :: fieldLines rest

end

def pageWidth : Nat :=
  80

/-- Whether an outline fits the page after an indentation and before an
allowance. -/
def fits (outline : Outline) (indent allowance : Nat) : Bool :=
  outline.oneLine.length + indent + allowance ≤ pageWidth

def newLine (indent : Nat) : String :=
  "\n" ++ String.ofList (List.replicate indent ' ')

def layoutQuote (indent allowance : Nat) (content : String) : String :=
  if content.isEmpty || fits (.quote content) indent allowance then oneLine (.quote content)
  else
    let room := pageWidth - indent
    (newLine indent).intercalate
      ((Pieces.ofText room (room - allowance) content.toList).map fun piece =>
        String.ofList (Quoted.write piece))

mutual

/-- Lays an outline out that begins in column `indent` and is followed by
`allowance` characters. -/
def layout (indent allowance : Nat) : Outline → String
  | .text content => content
  | .quote content => layoutQuote indent allowance content
  | .record name fields =>
      if fits (.record name fields) indent allowance then oneLine (.record name fields)
      else name ++ "(" ++ layoutFields (indent + name.length + 1) allowance fields ++ ")"
  | .list items =>
      if items.isEmpty || fits (.list items) indent allowance then oneLine (.list items)
      else "[" ++ layoutItems (indent + 1) allowance items ++ "]"

def layoutItems (indent allowance : Nat) : List Outline → String
  | [] => ""
  | [item] => layout indent (allowance + 1) item
  | item :: rest =>
      layout indent 1 item ++ "," ++ newLine indent ++ layoutItems indent allowance rest

/-- Lays fields out, one a line, each after its name. -/
def layoutFields (indent allowance : Nat) : List (String × Outline) → String
  | [] => ""
  | [(name, value)] => name ++ "=" ++ layout (indent + name.length + 1) allowance value
  | (name, value) :: rest =>
      name ++ "=" ++ layout (indent + name.length + 1) 1 value ++ "," ++ newLine indent
        ++ layoutFields indent allowance rest

end

def page (outline : Outline) : String :=
  layout 0 0 outline ++ "\n"

end Outline

end Nomi
