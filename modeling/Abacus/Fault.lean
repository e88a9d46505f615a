import Abacus.Text.Utf8
import Abacus.Text.Quote
import Abacus.Syntax.Token

/-!
# Faults

Everything that stops a program, from reading its sources to running it, is one `Fault`. A fault
records its cause and the data its message names; the wording lives only in `Fault.message`.

Faults fall into kinds: a malformed program is found while indexing its sources (`scan`), a run
stops on a fault of the running program (`execution`), a source cannot be opened (`source`), a
negative starting register is refused (`value`), a trace line cannot be written as UTF-8
(`encoding`), a step finds no group or frame where it needs one (`index`), and a run is asked
for with an entry or a starting register that is a list of values rather than one value
(`type`). A file name with a zero character in it is refused as a value too. Faults of the
first three kinds also carry a name, which messages shown to a user put first.

## Main definitions

* `Fault`, `FaultKind`, `Fault.kind`.
* `Fault.name?` — the fault's name, for the kinds that have one.
* `Fault.message` — the fault's text.
-/

namespace Abacus

/-- The kind of a fault. -/
inductive FaultKind where
  /-- A malformed program, found before it runs. -/
  | scan
  /-- A fault of a running program. -/
  | execution
  /-- A source that cannot be opened. -/
  | source
  /-- A starting value that is refused. -/
  | value
  /-- A trace line that is not writable as UTF-8. -/
  | encoding
  /-- A step with no group or frame where it needs one. -/
  | index
  /-- A setting that is a list of values where one value is needed. -/
  | type
  deriving DecidableEq, Repr

/-- What stops a program. -/
inductive Fault where
  /-- A group opened just before `openedAt` is never closed. -/
  | unclosedGroup (openedAt : Nat) (source : String)
  /-- A top-level group with no function name before it. -/
  | unnamedGroup (offset : Nat) (source : String)
  /-- A top-level `}` with no group open. -/
  | unopenedGroup (offset : Nat) (source : String)
  /-- A reserved token other than a brace at the top level. -/
  | strayTopLevel (symbol : Symbol) (offset : Nat) (source : String)
  /-- A function name followed by another name instead of its body. -/
  | bodyMissing (name : Bytes) (source : String) (next : Bytes)
  /-- A function name at the end of a source, with no body after it. -/
  | bodyMissingAtEnd (name : Bytes) (source : String)
  /-- A function defined a second time. -/
  | duplicateName (name : Bytes) (offset : Nat) (source : String) (first : String)
  /-- A run asked for a function that is not defined. -/
  | entryNotFound (entry : Bytes)
  /-- A call of a function that is not defined. -/
  | undefinedCall (name : Bytes) (offset : Nat) (source : String)
  /-- A source ended while the function `function` was running. -/
  | endOfSource (source : String) (function : Bytes)
  /-- A `}` read with no group or no call open. -/
  | nothingOpen (offset : Nat) (source : String)
  /-- A step found no frame, or no group to go back to. -/
  | noFrame
  /-- A run asked to start from a negative register. -/
  | negativeRegister (n : Int)
  /-- A trace line holds stray bytes: the first run of them starts at `position`. -/
  | unencodable (position : Nat) (run : List UInt8)
  /-- A program file that does not exist. -/
  | fileNotFound (file : String)
  /-- A program file that may not be read. -/
  | permissionDenied (file : String)
  /-- A program file that cannot be opened, with the system's error number and reason. -/
  | openFailed (file : String) (errno : Nat) (reason : String)
  /-- A file name that holds a zero character. -/
  | nullInName
  /-- A run asked for by an empty list of names, which cannot be looked up. -/
  | entryIsList
  /-- A run asked to start from an empty list of values, which cannot be compared with zero. -/
  | registerIsList
  deriving DecidableEq, Repr

namespace Fault

/-- The kind of each fault. -/
def kind : Fault → FaultKind
  | unclosedGroup .. | unnamedGroup .. | unopenedGroup .. | strayTopLevel .. | bodyMissing ..
  | bodyMissingAtEnd .. | duplicateName .. => .scan
  | entryNotFound .. | undefinedCall .. | endOfSource .. | nothingOpen .. => .execution
  | fileNotFound .. | permissionDenied .. | openFailed .. => .source
  | negativeRegister .. | nullInName => .value
  | unencodable .. => .encoding
  | noFrame => .index
  | entryIsList | registerIsList => .type

/-- The name of a fault, for the kinds that have one. -/
def name? : Fault → Option String
  | unclosedGroup .. => some "UnclosedGroup"
  | unnamedGroup .. => some "UnnamedTopLevelGroup"
  | unopenedGroup .. => some "UnopenedGroup"
  | strayTopLevel .. => some "InvalidTopLevelToken"
  | bodyMissing .. | bodyMissingAtEnd .. => some "FunctionWithoutGroup"
  | duplicateName .. => some "DuplicateFunctionName"
  | entryNotFound .. => some "EntryPointNotFound"
  | undefinedCall .. => some "UndefinedFunctionCall"
  | endOfSource .. | nothingOpen .. => some "UnexpectedReturn"
  | fileNotFound .. => some "FileNotFoundError"
  | permissionDenied .. => some "PermissionError"
  | openFailed .. => some "IOError"
  | negativeRegister .. | unencodable .. | noFrame | nullInName | entryIsList
  | registerIsList => none

/-- The code unit that stands for a stray byte in an encoding message: `\udc` and the byte in
two lowercase hex digits. -/
def strayUnit (b : UInt8) : String :=
  "\\udc" ++ String.ofList [Quote.hexDigit (b.toNat / 16), Quote.hexDigit (b.toNat % 16)]

/-- The text of a fault. Function names are shown from their bytes, so a name that is not
UTF-8 keeps its stray bytes in the message. -/
def message : Fault → Text
  | unclosedGroup p src =>
    Text.ofString ("group opened before offset " ++ toString p ++ " in " ++ src ++
      " is never closed")
  | unnamedGroup o src =>
    Text.ofString ("group without a function name at offset " ++ toString o ++ " in " ++ src)
  | unopenedGroup o src =>
    Text.ofString ("'\x7d' without a matching '\x7b' at offset " ++ toString o ++ " in " ++ src)
  | strayTopLevel s o src =>
    Text.ofString ("'" ++ String.ofList [Char.ofNat s.toByte.toNat] ++
      "' outside of a function body at offset " ++ toString o ++ " in " ++ src)
  | bodyMissing f src g =>
    Text.ofString "function " ++ Text.ofBytes f ++
      Text.ofString (" at " ++ src ++ " has no body (followed by ") ++ Text.ofBytes g ++
      Text.ofString ")"
  | bodyMissingAtEnd f src =>
    Text.ofString "function " ++ Text.ofBytes f ++
      Text.ofString (" at end of " ++ src ++ " has no body")
  | duplicateName f o src first =>
    Text.ofString "function " ++ Text.ofBytes f ++
      Text.ofString (" at offset " ++ toString o ++ " in " ++ src ++
        " is already defined in " ++ first)
  | entryNotFound e => Text.ofString "entry point " ++ Text.ofBytes e ++ Text.ofString " not found"
  | undefinedCall f o src =>
    Text.ofString "call to undefined function " ++ Text.ofBytes f ++
      Text.ofString (" at offset " ++ toString o ++ " in " ++ src)
  | endOfSource src f => Text.ofString ("reached end of " ++ src ++ " inside ") ++ Text.ofBytes f
  | nothingOpen o src =>
    Text.ofString ("group closed with nothing open at offset " ++ toString o ++ " in " ++ src)
  | noFrame => Text.ofString "list index out of range"
  | negativeRegister n =>
    Text.ofString ("initial register must be non-negative, got " ++ toString n)
  | unencodable i [b] =>
    Text.ofString ("'utf-8' codec can't encode character '" ++ strayUnit b ++ "' in position " ++
      toString i ++ ": surrogates not allowed")
  | unencodable i run =>
    Text.ofString ("'utf-8' codec can't encode characters in position " ++ toString i ++ "-" ++
      toString (i + run.length - 1) ++ ": surrogates not allowed")
  | nullInName => Text.ofString "embedded null byte"
  | entryIsList => Text.ofString "unhashable type: 'list'"
  | registerIsList => Text.ofString "'<' not supported between instances of 'list' and 'int'"
  | fileNotFound f => Text.ofString ("file " ++ f ++ " not found")
  | permissionDenied f => Text.ofString ("permission denied: " ++ f)
  | openFailed f n reason =>
    Text.ofString ("error opening " ++ f ++ ": [Errno " ++ toString n ++ "] " ++ reason ++ ": " ++
      Quote.render f)

end Fault

end Abacus
