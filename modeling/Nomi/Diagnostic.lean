import Nomi.Eval.Failure
import Nomi.Text.Lines

/-!
# Diagnostics

An error is shown in one line with its kind and place, and, if its place is in
the source, by the source line with a caret under the column.
-/

namespace Nomi

/-- How texts are emphasised.  What is written around a text is left to the terminal. -/
structure Style where
  /-- The emphasis of a place, which is bold. -/
  bold : String → String
  /-- The emphasis of what is wrong, which is bold and red. -/
  alarm : String → String

namespace Style

def plain : Style :=
  ⟨id, id⟩

def control (code : String) : String :=
  "\x1b[" ++ code ++ "m"

def coloured : Style where
  bold text := control "1" ++ text ++ control "0"
  alarm text := control "1" ++ control "31" ++ text ++ control "0"

end Style

structure Diagnostic where
  kind : String
  message : String
  line : Option Int
  column : Option Int
  deriving DecidableEq, Repr

namespace Diagnostic

def placed (kind message : String) (position : Position) : Diagnostic :=
  ⟨kind, message, some position.line, some position.column⟩

def ofLexical (error : LexicalError) : Diagnostic :=
  placed "LexerError" error.cause.message error.position

def ofSyntactic (error : SyntaxError) : Diagnostic :=
  placed "ParserError" error.cause.message error.position

def ofSource : SourceError → Diagnostic
  | .lexical error => ofLexical error
  | .syntactic error => ofSyntactic error

/-- The diagnostic of a scope error, which has no place. -/
def ofScope (error : ScopeError) : Diagnostic :=
  ⟨"EnvError", error.message, none, none⟩

def ofOperation (cause : OperationCause) (position : Position) : Diagnostic :=
  placed "ExprError" cause.message position

def place (number : Option Int) : String :=
  match number with
  | some number => toString number
  | none => "None"

def describe (diagnostic : Diagnostic) : String :=
  match diagnostic.line with
  | none => diagnostic.kind ++ ": " ++ diagnostic.message
  | some line =>
      diagnostic.kind ++ " at " ++ toString line ++ ":" ++ place diagnostic.column ++ " - "
        ++ diagnostic.message

/-- An error in one line for a terminal. -/
def format (style : Style) (diagnostic : Diagnostic) : String :=
  let head := style.alarm (diagnostic.kind ++ ": ")
  match diagnostic.line with
  | none => head ++ diagnostic.message
  | some line =>
      head ++ style.bold (toString line ++ ":" ++ place diagnostic.column ++ ": ")
        ++ diagnostic.message

def sourceLine? (diagnostic : Diagnostic) (source : String) : Option (List Char) := do
  let line ← diagnostic.line
  if 0 < line then (Lines.ofPage source.toList)[line.toNat - 1]? else none

def caretColumn (diagnostic : Diagnostic) : Nat :=
  (diagnostic.column.getD 1 - 1).toNat

/-- The source line of an error and a caret under its column; nothing if the
source has no such line. -/
def underline (style : Style) (diagnostic : Diagnostic) (source : String) : String :=
  match diagnostic.sourceLine? source with
  | none => ""
  | some text =>
      "  " ++ String.ofList text ++ "\n  "
        ++ String.ofList (List.replicate diagnostic.caretColumn ' ') ++ style.alarm "^"

end Diagnostic

end Nomi
