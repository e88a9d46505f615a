import Abacus.Cli.Command

/-!
# The command's entry point

Reads the program files named on the command line and standard input, runs the command, writes
its outputs and the trace file `debug.txt`, and exits with its code.
-/

open Abacus Abacus.Cli

/-- Reads a stream to its end. -/
partial def readAll (s : IO.FS.Stream) (acc : ByteArray) : IO ByteArray := do
  let chunk ← s.read 65536
  if chunk.isEmpty then return acc else readAll s (acc ++ chunk)

/-- What opening a name on this system gives. -/
def openOnSystem (name : String) : IO Opened := do
  if name.contains (Char.ofNat 0) then return .nullInName
  try
    let bytes ← IO.FS.readBinFile name
    return .contents bytes.toList
  catch e =>
    return match e with
      | .noFileOrDirectory .. => .missing
      | .permissionDenied .. => .denied
      | .inappropriateType _ code details => .failed code.toNat details
      | .otherError code details => .failed code.toNat details
      | _ => .failed 5 (toString e)

/-- Writes text to a stream as its bytes. -/
def writeText (s : IO.FS.Stream) (t : Text) : IO Unit := do
  s.write (ByteArray.mk (Text.toBytes t).toArray)
  s.flush

def main (args : List String) : IO UInt32 := do
  let mut table : List (String × Opened) := []
  for a in args do
    if a != "-" then
      table := (a, ← openOnSystem a) :: table
  let stdin ← if args.contains "-" then readAll (← IO.getStdin) .empty else pure .empty
  let opener := fun name => ((table.find? (·.1 == name)).map (·.2)).getD .missing
  match execute args opener stdin.toList (Nat.pow 2 62) with
  | none => return 1
  | some o =>
    if let some t := o.trace then IO.FS.writeFile "debug.txt" t
    writeText (← IO.getStdout) o.stdout
    writeText (← IO.getStderr) o.stderr
    match o.unnamed with
    | some f =>
      -- a fault with no name escapes the command, which ends the process with status 1
      writeText (← IO.getStderr) (f.message ++ Text.ofString "\n")
      return 1
    | none => return o.exit.toUInt32
