import Abacus.Fault
import Abacus.Program.Source

/-!
# Program files

The command reads its programs from files named on its command line, and from standard input
for the name `-`. What opening a name gives depends only on which files and directories exist,
so a set of files and directories is enough to say it.

A name is a path of components split at `/`. It is followed from the working directory: an empty
component or `.` stays, `..` goes up (and stays at the top). Each component is looked up in
turn: a component longer than 255 bytes is refused as too long; one that does not exist ends the
search; a file with more components after it is not a directory. At the end, a file opens, a
directory does not, and a name that ends in `/` must be a directory. An empty name does not
exist, and a name that holds a zero character is refused outright.

## Main definitions

* `Workspace`, `Workspace.openFile` — files and directories, and what opening a name gives.
* `Opened`, `Opened.toSource` — the result of opening a name, as a program source or a fault.
-/

namespace Abacus

namespace Cli

/-- What opening a file name gives. -/
inductive Opened where
  /-- The file's bytes. -/
  | contents (bytes : Bytes)
  /-- No such file or directory. -/
  | missing
  /-- The file may not be read. -/
  | denied
  /-- The file cannot be opened, with the system's error number and reason. -/
  | failed (errno : Nat) (reason : String)
  /-- The name holds a zero character. -/
  | nullInName
  deriving DecidableEq, Repr

/-- The source of an opened file, named by the name it was opened by, or the fault of a name
that did not open. -/
def Opened.toSource (name : String) : Opened → Except Fault Source
  | .contents bs => .ok ⟨name, bs⟩
  | .missing => .error (.fileNotFound name)
  | .denied => .error (.permissionDenied name)
  | .failed n reason => .error (.openFailed name n reason)
  | .nullInName => .error .nullInName

/-- Files and directories, each named by its path from the working directory. -/
structure Workspace where
  /-- The files, each with its contents. -/
  files : List (String × Bytes)
  /-- The directories. -/
  dirs : List String
  deriving DecidableEq, Repr

namespace Workspace

/-- The components of a path, without empty components and `.`, with `..` taken back. -/
def normalize (parts : List String) : List String :=
  (parts.foldl (fun acc p =>
    if p = "" || p = "." then acc
    else if p = ".." then acc.drop 1
    else p :: acc) []).reverse

/-- The normalized components of a stored name. -/
def pathOf (name : String) : List String := normalize (name.splitOn "/")

/-- Whether a path is a file. -/
def isFile (w : Workspace) (path : List String) : Bool := w.files.any fun (n, _) => pathOf n = path

/-- Whether a path is a directory: the top, a named directory, or one that holds a file or a
directory. -/
def isDir (w : Workspace) (path : List String) : Bool :=
  path.isEmpty ||
    w.dirs.any (fun d => path.isPrefixOf (pathOf d)) ||
    w.files.any (fun (n, _) => path.isPrefixOf (pathOf n) && path ≠ pathOf n)

/-- The contents of a file at a path. -/
def contents (w : Workspace) (path : List String) : Bytes :=
  ((w.files.find? fun (n, _) => pathOf n = path).map (·.2)).getD []

/-- Follows the components of a name from directory `here`. -/
def follow (w : Workspace) (here : List String) : List String → Opened
  | [] => if w.isDir here then .failed 21 "Is a directory" else .missing
  | [""] =>
    if w.isDir here then .failed 21 "Is a directory"
    else if w.isFile here then .failed 20 "Not a directory"
    else .missing
  | part :: rest =>
    if part.utf8ByteSize > 255 then .failed 36 "File name too long"
    else if part = "" || part = "." then follow w here rest
    else if part = ".." then follow w (here.dropLast) rest
    else
      let next := here ++ [part]
      if rest.isEmpty then
        if w.isFile next then .contents (w.contents next)
        else if w.isDir next then .failed 21 "Is a directory"
        else .missing
      else if w.isFile next then .failed 20 "Not a directory"
      else if w.isDir next then follow w next rest
      else .missing

/-- What opening a name gives. -/
def openFile (w : Workspace) (name : String) : Opened :=
  if name.contains (Char.ofNat 0) then .nullInName
  else if name.isEmpty then .missing
  else if name.utf8ByteSize ≥ 4096 then .failed 36 "File name too long"
  else follow w [] (name.splitOn "/")

end Workspace

end Cli

end Abacus
