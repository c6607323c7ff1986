import Nomi.Cli.Arguments
import Nomi.Cli.Folder
import Nomi.Diagnostic
import Nomi.Eval.Session
import Nomi.Syntax.Outline
import Nomi.Text.Utf8
import Nomi.Token.Table

/-!
# The command

The command reads a program from a file and runs it, or prints its tokens or
its tree.  What it prints goes to two streams, and how it ended shows in its
exit code.
-/

namespace Nomi.Cli

structure Report where
  exitCode : Nat
  stdout : String
  stderr : String
  deriving DecidableEq, Repr

/-- A report of an error that has no place in a source. -/
def complaint (style : Style) (exitCode : Nat) (stdout message : String) : Report :=
  ⟨exitCode, stdout, style.alarm "error: " ++ message ++ "\n"⟩

def errorText (style : Style) (source : String) (diagnostic : Diagnostic) : String :=
  let underlined := diagnostic.underline style source
  diagnostic.format style ++ "\n" ++ (if underlined.isEmpty then "" else underlined ++ "\n")

def diagnosis (style : Style) (source stdout : String) (diagnostic : Diagnostic) : Report :=
  ⟨1, stdout, errorText style source diagnostic⟩

def written (world : World) : String :=
  String.join (world.output.toList.map (· ++ "\n"))

def cancelledMessage : String :=
  "Read operation canceled by the user."

def failureReport (style : Style) (source stdout : String) : Failure → Report
  | .source error => diagnosis style source stdout (.ofSource error)
  | .scope error => diagnosis style source stdout (.ofScope error)
  | .operation cause position => diagnosis style source stdout (.ofOperation cause position)
  | .cancelled => ⟨0, stdout, cancelledMessage ++ "\n"⟩
  | .interrupted => complaint style 130 stdout "keyboard interrupt"
  | .tooDeep => complaint style 1 stdout "maximum recursion depth exceeded"
  | .fault fault => complaint style 1 stdout fault.message

def tokensReport (style : Style) (source : String) : Report :=
  match tokenize source with
  | .ok tokens => ⟨0, Token.table tokens, ""⟩
  | .error error => diagnosis style source "" (.ofLexical error)

def astReport (style : Style) (source : String) : Report :=
  match parse source with
  | .ok program => ⟨0, program.dump, ""⟩
  | .error error => diagnosis style source "" (.ofSource error)

def runReport (style : Style) (source : String) (result : Outcome × World) : Report :=
  match result with
  | (.ok _, world) => ⟨0, written world, ""⟩
  | (.error failure, world) => failureReport style source (written world) failure

def execute (style : Style) (host : Host) (mode : Mode) (source : String)
    (input : List String) : Report :=
  match mode with
  | .tokens => tokensReport style source
  | .ast => astReport style source
  | .run => runReport style source (run host source input)

def suffix : String :=
  ".nm"

def usageReport (error : ArgumentError) : Report :=
  ⟨2, "", usage ++ "nomi: error: " ++ error.message ++ "\n"⟩

/-- The source that a file holds, or the report that it holds none. -/
def sourceOf (style : Style) (file : String) (opened : Except OpenError (List UInt8)) :
    Except Report String :=
  match opened with
  | .error error =>
      .error (complaint style 1 "" ("'" ++ file ++ "' could not be opened: " ++ error.message))
  | .ok bytes =>
      match Utf8.decode bytes with
      | .error fault =>
          .error (complaint style 1 ""
            ("'" ++ file ++ "' is not valid UTF-8: " ++ fault.kind.message ++ " at byte "
              ++ toString fault.offset))
      | .ok text => .ok (String.ofList (Lines.unify text))

/-- What is to be done with which file, or the report that ends the command
before a file is read. -/
def requested (style : Style) (arguments : List String) : Except Report (Mode × String) :=
  match readArguments arguments with
  | .error error => .error (usageReport error)
  | .ok .help => .error ⟨0, help, ""⟩
  | .ok (.execute mode file) =>
      if file.endsWith suffix then .ok (mode, file)
      else .error (complaint style 1 "" ("File is not of type " ++ suffix ++ " (NomiScript)."))

/-- The whole command over a folder and a text of input. -/
def command (style : Style) (host : Host) (folder : Folder) (arguments : List String)
    (stdin : String) : Report :=
  match requested style arguments with
  | .error report => report
  | .ok (mode, file) =>
      match sourceOf style file (folder.read file) with
      | .error report => report
      | .ok source => execute style host mode source (Lines.ofInput stdin)

end Nomi.Cli
