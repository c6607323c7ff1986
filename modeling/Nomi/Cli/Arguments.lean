import Nomi.Text.Digit
import Nomi.Text.Quoted

/-!
# Command-line arguments

A command line holds one file and flags around it.  Flags may be shortened as
long as one flag only is meant, and a `--` makes operands of all words after
it.  Words are classified first, then read from left to right.
-/

namespace Nomi.Cli

inductive Flag where
  | help
  | tokens
  | ast
  deriving DecidableEq, Repr

/-- Every spelling of a flag. -/
def spellings : List (String × Flag) :=
  [("-h", .help), ("--help", .help), ("--tokens", .tokens), ("--ast", .ast)]

def Flag.name : Flag → String
  | .help => "-h/--help"
  | .tokens => "--tokens"
  | .ast => "--ast"

inductive Mode where
  | run
  | tokens
  | ast
  deriving DecidableEq, Repr

inductive Request where
  | help
  | execute (mode : Mode) (file : String)
  deriving DecidableEq, Repr

/-- Why a command line asks for nothing. -/
inductive ArgumentError where
  | ambiguous (word : String) (candidates : List String)
  /-- Text attached to a flag, none of which takes any. -/
  | attached (flag : Flag) (text : String)
  | conflict (later earlier : Flag)
  | missingFile
  | unrecognized (words : List String)
  deriving DecidableEq, Repr

def ArgumentError.message : ArgumentError → String
  | .ambiguous word candidates =>
      "ambiguous option: " ++ word ++ " could match " ++ ", ".intercalate candidates
  | .attached flag text =>
      "argument " ++ flag.name ++ ": ignored explicit argument "
        ++ String.ofList (Quoted.write text.toList)
  | .conflict later earlier =>
      "argument " ++ later.name ++ ": not allowed with argument " ++ earlier.name
  | .missingFile => "the following arguments are required: file"
  | .unrecognized words => "unrecognized arguments: " ++ " ".intercalate words

/-! ## Words -/

inductive Word where
  | operand (text : String)
  | marker
  /-- A flag, whether it has the short form, and what is attached to it. -/
  | flag (flag : Flag) (short : Bool) (attached : Option String)
  | unknown (text : String)
  deriving DecidableEq, Repr

def cutAtEquals (word : List Char) : List Char × Option (List Char) :=
  match word.dropWhile (· != '=') with
  | [] => (word, none)
  | _ :: value => (word.takeWhile (· != '='), some value)

/-- Whether a word is a negative number and so no flag. -/
def isNegativeNumber (word : List Char) : Bool :=
  let word := if word.getLast? = some '\n' then word.dropLast else word
  match word with
  | '-' :: number =>
      match number.dropWhile Digit.isDigit with
      | [] => !number.isEmpty
      | '.' :: fraction => !fraction.isEmpty && fraction.all Digit.isDigit
      | _ => false
  | _ => false

def spelled? (word : List Char) : Option Flag :=
  spellings.lookup (String.ofList word)

/-- The flags that a word beginning with two dashes may be short for. -/
def candidates (stem : List Char) : List (String × Flag) :=
  spellings.filter fun (spelling, _) => stem.isPrefixOf spelling.toList

/-- A word that begins with a dash and is no operand by its form, or else a
word of no meaning. -/
def leftover (word : List Char) : Word :=
  if isNegativeNumber word || word.contains ' ' then .operand (String.ofList word)
  else .unknown (String.ofList word)

/-- Classifies a word with two dashes in front that is spelled like no flag. -/
def shortened (word : List Char) : Except ArgumentError Word :=
  let (stem, attached) := cutAtEquals word
  match candidates stem with
  | [] => .ok (leftover word)
  | [(_, flag)] => .ok (.flag flag false (attached.map String.ofList))
  | several => .error (.ambiguous (String.ofList word) (several.map (·.1)))

/-- Classifies a word before the `--`. -/
def classify (text : String) : Except ArgumentError Word :=
  let word := text.toList
  match word with
  | '-' :: second :: rest =>
      match spelled? word, cutAtEquals word with
      | some flag, _ => .ok (.flag flag (second != '-') none)
      | none, (stem, attached) =>
          match spelled? stem with
          | some flag => .ok (.flag flag (second != '-') (attached.map String.ofList))
          | none =>
              if second = '-' then shortened word
              else
                match spelled? ['-', second] with
                | some flag => .ok (.flag flag true (some (String.ofList rest)))
                | none => .ok (leftover word)
  | _ => .ok (.operand text)

def classifyAll : List String → Except ArgumentError (List Word)
  | [] => .ok []
  | "--" :: rest => .ok (.marker :: rest.map .operand)
  | text :: rest => do
      let word ← classify text
      let words ← classifyAll rest
      return word :: words

/-! ## Reading -/

structure Progress where
  file : Option String
  mode : Mode
  extras : List String
  /-- Whether the last word was taken as the file. -/
  atFile : Bool

def Progress.start : Progress :=
  ⟨none, .run, [], false⟩

def Progress.setAside (progress : Progress) (word : String) : Progress :=
  { progress with extras := progress.extras ++ [word], atFile := false }

/-- The text attached to a short flag holds further short flags.  Help is the
only one there is. -/
def shortFlags : List Char → Except ArgumentError Unit
  | [] => .ok ()
  | 'h' :: rest => shortFlags rest
  | rest => .error (.attached .help (String.ofList rest))

def checkAttached (flag : Flag) (short : Bool) (attached : Option String) :
    Except ArgumentError Unit :=
  match attached with
  | none => .ok ()
  | some text =>
      if short && !text.isEmpty then shortFlags text.toList else .error (.attached flag text)

def chooseMode (mode : Mode) (flag : Flag) : Except ArgumentError Mode :=
  match flag, mode with
  | .tokens, .ast => .error (.conflict .tokens .ast)
  | .ast, .tokens => .error (.conflict .ast .tokens)
  | .tokens, _ => .ok .tokens
  | .ast, _ => .ok .ast
  | .help, mode => .ok mode

/-- Reads words from left to right.  The request for help ends the reading. -/
def readWords (progress : Progress) : List Word → Except ArgumentError Request
  | [] =>
      match progress.file with
      | none => .error .missingFile
      | some file =>
          if progress.extras.isEmpty then .ok (.execute progress.mode file)
          else .error (.unrecognized progress.extras)
  | .operand text :: rest =>
      match progress.file with
      | none => readWords { progress with file := some text, atFile := true } rest
      | some _ => readWords (progress.setAside text) rest
  | .marker :: rest =>
      if progress.file.isNone || progress.atFile then
        readWords { progress with atFile := false } rest
      else
        readWords (progress.setAside "--") rest
  | .unknown text :: rest => readWords (progress.setAside text) rest
  | .flag flag short attached :: rest => do
      checkAttached flag short attached
      match flag with
      | .help => return .help
      | flag =>
          let mode ← chooseMode progress.mode flag
          readWords { progress with mode, atFile := false } rest

def readArguments (arguments : List String) : Except ArgumentError Request := do
  let words ← classifyAll arguments
  readWords .start words

def usage : String :=
  "usage: nomi [-h] [--tokens | --ast] file\n"

def help : String :=
  usage ++ "
Run a NomiScript (.nm) program.

positional arguments:
  file        program to run (must end in .nm)

options:
  -h, --help  show this help message and exit
  --tokens    print the token stream and stop
  --ast       print the parsed program and stop
"

end Nomi.Cli
