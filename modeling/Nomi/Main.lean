import Nomi.Cli.Command
import Std.Time.DateTime.Timestamp

/-!
# The command on a terminal

The outer layer reads the file and the lines of input and prints what the
command reports.  A run that stops for want of input is started again with one
more line; what it has printed before is not printed a second time, because a
longer input only makes it go on from where it stopped.
-/

namespace Nomi.Cli

def directoryCode : UInt32 :=
  21

/-- Opens a file.  The system calls a name invalid for its length only. -/
def openFile (path : String) : IO (Except OpenError (List UInt8)) := do
  try
    return .ok (← IO.FS.readBinFile path).toList
  catch
    | .noFileOrDirectory .. | .noSuchThing .. => return .error .notFound
    | .inappropriateType _ code _ =>
        return .error (if code = directoryCode then .isDirectory else .notDirectory)
    | .invalidArgument (some _) .. => return .error .nameTooLong
    | error => throw error

/-- Emphasis is used on terminals, unless the environment forbids it. -/
def terminalStyle : IO Style := do
  let forbidden := (← IO.getEnv "NO_COLOR").isSome
  let terminal ← (← IO.getStdout).isTty
  return if terminal && !forbidden then .coloured else .plain

/-- The time of day in milliseconds.  It is read once, before the run, and is the time of
the whole run. -/
def clock : IO Float := do
  let now ← Std.Time.Timestamp.now
  return Float.ofInt now.toNanosecondsSinceUnixEpoch.val / 1000000

/-- The next lines of input without their ends; none at the end of the
input. -/
def nextLines : IO (List String) := do
  return Lines.ofInput (← (← IO.getStdin).getLine)

def print (printed : Nat) (report : Report) : IO UInt32 := do
  IO.print (String.ofList (report.stdout.toList.drop printed))
  (← IO.getStdout).flush
  IO.eprint report.stderr
  return UInt32.ofNat report.exitCode

/-- Runs a source, taking lines of input as they are asked for. -/
partial def converse (style : Style) (host : Host) (source : String) (input : List String)
    (printed : Nat) : IO UInt32 := do
  let result := run host source input
  match result with
  | (.error .cancelled, world) =>
      let stdout := written world
      IO.print (String.ofList (stdout.toList.drop printed))
      (← IO.getStdout).flush
      match ← nextLines with
      | [] => print stdout.length (runReport style source result)
      | lines => converse style host source (input ++ lines) stdout.length
  | result => print printed (runReport style source result)

def runCommand (arguments : List String) : IO UInt32 := do
  let style ← terminalStyle
  match requested style arguments with
  | .error report => print 0 report
  | .ok (mode, file) =>
      match sourceOf style file (← openFile file) with
      | .error report => print 0 report
      | .ok source =>
          match mode with
          | .run =>
              converse style ⟨← clock, .cancels⟩ source [] 0
          | mode => print 0 (execute style ⟨0, .cancels⟩ mode source [])

end Nomi.Cli

def main (arguments : List String) : IO UInt32 :=
  Nomi.Cli.runCommand arguments
