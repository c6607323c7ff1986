/-!
# Folders

A folder is a finite set of files and directories by their paths.  Opening a
path walks it part by part, so that a file in the middle of a path is told from
a path that leads nowhere.
-/

namespace Nomi.Cli

/-- Files with their bytes, and directories. -/
structure Folder where
  files : List (String × List UInt8)
  directories : List String

inductive OpenError where
  | notFound
  | isDirectory
  | notDirectory
  | nameTooLong
  deriving DecidableEq, Repr

def OpenError.message : OpenError → String
  | .notFound => "No such file or directory"
  | .isDirectory => "Is a directory"
  | .notDirectory => "Not a directory"
  | .nameTooLong => "File name too long"

namespace Folder

/-- How many bytes one part of a path may have. -/
def longestPart : Nat :=
  255

/-- How many bytes a path may have. -/
def longestPath : Nat :=
  4095

/-- The parts of a path without those that stay in place. -/
def parts (path : String) : List String :=
  ((path.toList.splitOn '/').map String.ofList).filter fun part => part != "" && part != "."

inductive Entry where
  | file (bytes : List UInt8)
  | directory
  | nothing

/-- What a list of parts leads to.  The directories on the way to a file are
directories too. -/
def find (folder : Folder) (path : List String) : Entry :=
  match folder.files.find? (fun (name, _) => parts name == path) with
  | some (_, bytes) => .file bytes
  | none =>
      if path.isEmpty || folder.directories.any (fun name => path.isPrefixOf (parts name))
          || folder.files.any (fun (name, _) => path.isPrefixOf (parts name)) then
        .directory
      else .nothing

/-- Walks from a directory along the parts of a path. -/
def walk (folder : Folder) (here : List String) : List String → Except OpenError (List UInt8)
  | [] => .error .isDirectory
  | ".." :: rest => if here.isEmpty then .error .notFound else folder.walk here.dropLast rest
  | part :: rest =>
      if longestPart < part.utf8ByteSize then .error .nameTooLong
      else
        match folder.find (here ++ [part]), rest with
        | .nothing, _ => .error .notFound
        | .file bytes, [] => .ok bytes
        | .file _, _ => .error .notDirectory
        | .directory, rest => folder.walk (here ++ [part]) rest

/-- The bytes of the file at a path.  A path from the root leads out of the
folder. -/
def read (folder : Folder) (path : String) : Except OpenError (List UInt8) :=
  if longestPath < path.utf8ByteSize then .error .nameTooLong
  else if path.startsWith "/" then .error .notFound
  else folder.walk [] (parts path)

end Folder

end Nomi.Cli
