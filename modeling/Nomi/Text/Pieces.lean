import Nomi.Text.Blank
import Nomi.Text.Lines
import Nomi.Text.Quoted

/-!
# Long texts in pieces

A text that does not fit a line is written as several quoted pieces.  Each of
its lines is a piece where it fits, and otherwise is cut behind runs of blanks
into pieces that hold as many words as fit.
-/

namespace Nomi.Pieces

/-- Cuts a text behind its line breaks, which stay with their lines. -/
def lines : List Char → List (List Char)
  | [] => []
  | '\r' :: '\n' :: rest => ['\r', '\n'] :: lines rest
  | c :: rest =>
      if Lines.isPageBreak c then [c] :: lines rest
      else
        match lines rest with
        | [] => [[c]]
        | line :: others => (c :: line) :: others

/-- Whether words end at a character: at blanks and at the separators of files,
groups, records and units. -/
def isGap (c : Char) : Bool :=
  Blank.isBlank c || ['\x1c', '\x1d', '\x1e', '\x1f'].contains c

/-- Cuts a line behind each run of gaps. -/
def words : List Char → List (List Char)
  | [] => []
  | c :: rest =>
      match words rest with
      | [] => [[c]]
      | word :: others =>
          if isGap c && !word.head?.any isGap then [c] :: word :: others
          else (c :: word) :: others

def exceeds (room : Nat) (text : List Char) : Bool :=
  room < (Quoted.write text).length

/-- Packs words behind a beginning into pieces for the room.  The last word has
a room of its own, since more may follow it. -/
def pack (room lastRoom : Nat) (beginning : List Char) : List (List Char) → List (List Char)
  | [] => if beginning.isEmpty then [] else [beginning]
  | word :: rest =>
      if exceeds (if rest.isEmpty then lastRoom else room) (beginning ++ word) then
        if beginning.isEmpty then pack room lastRoom word rest
        else beginning :: pack room lastRoom word rest
      else pack room lastRoom (beginning ++ word) rest

def ofLine (room lastRoom : Nat) (line : List Char) : List (List Char) :=
  if exceeds lastRoom line then pack room lastRoom [] (words line) else [line]

/-- The pieces of lines, of which the last has a room of its own. -/
def ofLines (room lastRoom : Nat) : List (List Char) → List (List Char)
  | [] => []
  | [line] => ofLine room lastRoom line
  | line :: rest => ofLine room room line ++ ofLines room lastRoom rest

def ofText (room lastRoom : Nat) (text : List Char) : List (List Char) :=
  ofLines room lastRoom (lines text)

theorem flatten_lines (text : List Char) : (lines text).flatten = text := by
  fun_induction lines text <;> simp_all

theorem flatten_words (line : List Char) : (words line).flatten = line := by
  fun_induction words line <;> simp_all

theorem flatten_pack (room lastRoom : Nat) (beginning : List Char) (rest : List (List Char)) :
    (pack room lastRoom beginning rest).flatten = beginning ++ rest.flatten := by
  fun_induction pack room lastRoom beginning rest <;> simp_all

theorem flatten_ofLine (room lastRoom : Nat) (line : List Char) :
    (ofLine room lastRoom line).flatten = line := by
  unfold ofLine
  split
  · rw [flatten_pack, flatten_words, List.nil_append]
  · simp

/-- The pieces of a text make up the text. -/
theorem flatten_ofText (room lastRoom : Nat) (text : List Char) :
    (ofText room lastRoom text).flatten = text := by
  have hlines (parts : List (List Char)) :
      (ofLines room lastRoom parts).flatten = parts.flatten := by
    fun_induction ofLines room lastRoom parts <;> simp_all [flatten_ofLine]
  rw [ofText, hlines, flatten_lines]

end Nomi.Pieces
