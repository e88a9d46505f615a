import Abacus.Cli.Options
import Abacus.Cli.Files
import Abacus.Machine.Session

/-!
# The command

The command reads its command line, opens its program files in order (the first `-` reads
standard input, a later one finds it empty), indexes them, and runs the function asked for.

* On success it writes the result, or `-` for no value, and a line feed to standard output;
  what `!` and `@` show goes to standard error, and the exit code is `0`.
* A fault of the program or of its files is written to standard error as
  `Error: Name: message` and a line feed, after whatever was shown, and the exit code is `1`.
* A fault that has no name (a trace line that cannot be written, for instance) ends the command
  after what was shown and escapes it, reported as it is: the command writes no result and sets
  no exit code of its own, so its code stays `0`, while a process it escapes ends with status
  `1`.
* A register that was given as `--` holds no value and stops the command before the run starts;
  an entry given so stops it once the run has started, so a positive trace level leaves an empty
  trace.
* A refused command line ends it with exit code `2`; `-h` writes the usage text and exits with
  `0`.

When the trace level is positive the run writes its trace, which the command leaves as a file.

## Main definitions

* `Cli.usage` — the usage text.
* `Cli.Outcome` — exit code, standard output, standard error, trace, and an unnamed fault.
* `Cli.openAll` — the sources of the program files.
* `Cli.execute` — the whole command.
-/

namespace Abacus

namespace Cli

/-- The usage text. -/
def usage : String :=
  "usage: brace [-h] [-v] [-d] [-e NAME] [-r N] program [program ...]\n\n" ++
  "Brace language interpreter\n\n" ++
  "positional arguments:\n" ++
  "  program               Brace program file(s); - for stdin\n\n" ++
  "options:\n" ++
  "  -h, --help            show this help message and exit\n" ++
  "  -v                    increase trace verbosity (can be repeated)\n" ++
  "  -d, --debug           enable the ! and @ debug commands\n" ++
  "  -e NAME, --entry NAME\n" ++
  "                        function to run (default: main)\n" ++
  "  -r N, --register N    initial register value (default: 0)\n"

/-- What the command leaves behind. -/
structure Outcome where
  /-- The exit code the command gives itself: `0` when it returns, even on a fault with no
  name, which escapes it rather than setting a code. -/
  exit : Nat
  /-- What it wrote to standard output. -/
  stdout : Text
  /-- What it wrote to standard error. -/
  stderr : Text
  /-- The trace it wrote, when the trace level was positive and the run started. -/
  trace : Option String := none
  /-- A fault with no name that ended it. -/
  unnamed : Option Fault := none
  deriving DecidableEq, Repr

/-- The sources of program files opened in order by `opener`; `stdin` is read by the first `-`
only. -/
def openAll (opener : String → Opened) (stdin : Bytes) : List String → Except Fault (List Source)
  | [] => .ok []
  | name :: rest =>
    if name = "-" then
      (openAll opener [] rest).map (⟨"<stdin>", stdin⟩ :: ·)
    else
      match (opener name).toSource name with
      | .error f => .error f
      | .ok src => (openAll opener stdin rest).map (src :: ·)

/-- The line that reports a named fault. -/
def errorLine (name : String) (f : Fault) : Text :=
  Text.ofString ("Error: " ++ name ++ ": ") ++ f.message ++ Text.ofString "\n"

/-- How the command ends on a fault, after showing `shown` and tracing `trace`. -/
def failWith (f : Fault) (shown : Text) (trace : Option String) : Outcome :=
  match f.name? with
  | some name => ⟨1, [], shown ++ errorLine name f, trace, none⟩
  | none => ⟨0, [], shown, trace, some f⟩

/-- The whole command: its command line, the files it can open, and its standard input. Runs
take at most `fuel` steps; `none` when that is not enough. -/
def execute (argv : List String) (opener : String → Opened) (stdin : Bytes) (fuel : Nat) :
    Option Outcome :=
  match parse argv with
  | .refused => some ⟨2, [], [], none, none⟩
  | .help => some ⟨0, Text.ofString usage, [], none, none⟩
  | .run o =>
    match openAll opener stdin o.programs with
    | .error f => some (failWith f [] none)
    | .ok sources =>
      match Session.load sources o.debug with
      | .error f => some (failWith f [] none)
      | .ok s =>
        match o.register, o.entry with
        | .empty, _ => some (failWith .registerIsList [] none)
        | .given _, .empty =>
          some (failWith .entryIsList [] (if o.verbosity > 0 then some "" else none))
        | .given register, .given entry =>
          let (r, _) := { s with level := o.verbosity }.run (entry.toUTF8.toList) register fuel
          match r.outcome with
          | .done v =>
            let line := match v with
              | some n => toString n
              | none => "-"
            some ⟨0, Text.ofString (line ++ "\n"), r.out, r.trace, none⟩
          | .stopped f => some (failWith f r.out r.trace)
          | .outOfFuel => none

end Cli

end Abacus
