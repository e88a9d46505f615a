import Abacus.Text.Digit

/-!
# The command line

The command takes options and one or more program files:

* `-v` raises the trace level by one each time it is given;
* `-d`, `--debug` lets `!` and `@` show what they show;
* `-e NAME`, `--entry NAME` names the function to run (`main` when not given);
* `-r N`, `--register N` gives the starting register, in ASCII decimal digits (`0` when not
  given); the last of several wins;
* `-h`, `--help` asks for the usage text.

The arguments are read in the usual way of long and short options:

* An argument that starts with `-` and is longer than `-` is an option. A long option may be
  shortened to any prefix that only one long option starts with, and takes its value after `=`
  or as the next argument.
* A one-letter option followed by `=` takes the text after the `=` as its value; otherwise the
  text right after its letter, or else the next argument. One-letter options without values may
  be run together, and each letter after the first is read from the text attached to the one
  before it, `=` included: `-vvd` is `-v -v -d`, `-v=d` is `-v -d`, `-dvr12` ends with `-r 12`,
  and in `-ve=x` the entry is `=x`. A letter that is no option is refused, and so is text
  attached to a long option that takes no value, or a bare `=` after a one-letter option that
  takes none (`-v=`).
* An argument that looks like a negative number, or holds a blank, is not an option, and
  neither is any argument after the first `--`.
* The program files are the first run of arguments that are not options, once it holds one that
  is not the first `--`; that `--` is dropped from it. Any later such run is refused, as is an
  unknown option, a value that is missing or malformed, and a prefix that more than one long
  option starts with.
* A value `--` is dropped from an option's values too, which leaves the option holding an empty
  list of values where it needs one (`Held.empty`); only a value in the same argument as its
  option can be `--`.

Options take effect from left to right, so `-h` asks for the usage text unless an argument
before it was refused; an ambiguous prefix is refused before anything takes effect, and so is
every option of an argument when a later letter of it is refused.

## Main definitions

* `Cli.Flag`, `Cli.spellings` — the options and how they are written.
* `Cli.Word`, `Cli.classify`, `Cli.classifyAll` — what each argument is.
* `Cli.cluster` — the options that one argument holds.
* `Cli.Held`, `Cli.Options`, `Cli.Parse`, `Cli.parse` — the settings a command line asks for.
-/

namespace Abacus

namespace Cli

/-- The options of the command. -/
inductive Flag where
  /-- Show the usage text. -/
  | help
  /-- Raise the trace level by one. -/
  | verbose
  /-- Let `!` and `@` show what they show. -/
  | debug
  /-- Name the function to run. -/
  | entry
  /-- Give the starting register. -/
  | register
  deriving DecidableEq, Repr

/-- Whether an option takes a value. -/
def Flag.takesValue : Flag → Bool
  | .entry | .register => true
  | _ => false

/-- The spellings of the options, in the order they are declared. -/
def spellings : List (List Char × Flag) :=
  [("-h".toList, .help), ("--help".toList, .help), ("-v".toList, .verbose),
   ("-d".toList, .debug), ("--debug".toList, .debug), ("-e".toList, .entry),
   ("--entry".toList, .entry), ("-r".toList, .register), ("--register".toList, .register)]

/-- The option spelled exactly so. -/
def lookup (s : List Char) : Option Flag := (spellings.find? (·.1 == s)).map (·.2)

/-- An option found in an argument: the option, the spelling it was read as, and the text
attached to it in the same argument, if there is any. -/
structure Hit where
  /-- The option. -/
  flag : Flag
  /-- The spelling it was read as. -/
  spelling : List Char
  /-- The text attached to it in the same argument. -/
  attached : Option (List Char)
  deriving DecidableEq, Repr

/-- What an argument is. -/
inductive Word where
  /-- Not an option: a program file, or the value of the option before it. -/
  | value
  /-- An option, or `none` for one that no option matches. -/
  | option (hit : Option Hit)
  /-- The first `--`: no argument after it is an option. -/
  | separator
  deriving DecidableEq, Repr

/-- The text before the first `=`, and the text after it when there is one. -/
def splitEq : List Char → List Char × Option (List Char)
  | [] => ([], none)
  | c :: cs =>
    if c = '=' then ([], some cs)
    else
      let (a, b) := splitEq cs
      (c :: a, b)

/-- The text before the first `.`, and the text after it when there is one. -/
def splitDot : List Char → List Char × Option (List Char)
  | [] => ([], none)
  | c :: cs =>
    if c = '.' then ([], some cs)
    else
      let (a, b) := splitDot cs
      (c :: a, b)

/-- Whether a text is one or more decimal digits. -/
def isNumeral (cs : List Char) : Bool := !cs.isEmpty && cs.all Digit.isDecimalDigit

/-- Whether an argument looks like a negative number: `-` and digits, or `-` and digits with a
point and at least one digit after it; one line feed may follow. -/
def looksNegative : List Char → Bool
  | '-' :: rest =>
    let body := if rest.getLast? = some '\n' then rest.dropLast else rest
    isNumeral body ||
      match splitDot body with
      | (whole, some frac) => whole.all Digit.isDecimalDigit && isNumeral frac
      | (_, none) => false
  | _ => false

/-- The options an argument that starts with `-` may stand for: a long option whose spelling
starts with the text before `=`; or a one-letter option followed by attached text, or whose
spelling starts with the argument. -/
def candidates (arg : List Char) : List Hit :=
  match arg with
  | '-' :: '-' :: _ =>
    let (pre, after) := splitEq arg
    spellings.filterMap fun (sp, f) =>
      if pre.isPrefixOf sp then some ⟨f, sp, after⟩ else none
  | '-' :: c :: tail =>
    spellings.filterMap fun (sp, f) =>
      if sp = ['-', c] then some ⟨f, sp, some tail⟩
      else if arg.isPrefixOf sp then some ⟨f, sp, none⟩
      else none
  | _ => []

/-- What an argument before the first `--` is; `none` when it is a prefix of more than one
option. -/
def classify (arg : List Char) : Option Word :=
  match arg with
  | [] => some .value
  | c :: rest =>
    if c ≠ '-' then some .value
    else
      match lookup arg with
      | some f => some (.option (some ⟨f, arg, none⟩))
      | none =>
        if rest = [] then some .value
        else
          match splitEq arg with
          | (name, some text) =>
            match lookup name with
            | some f => some (.option (some ⟨f, name, some text⟩))
            | none => classifyBy arg
          | (_, none) => classifyBy arg
where
  /-- Classifies an argument by the options it may stand for. -/
  classifyBy (arg : List Char) : Option Word :=
    match candidates arg with
    | [h] => some (.option (some h))
    | _ :: _ :: _ => none
    | [] =>
      if looksNegative arg then some .value
      else if arg.contains ' ' then some .value
      else some (.option none)

/-- What each argument is; `none` when one is an ambiguous prefix. -/
def classifyAll : List (List Char) → Option (List Word)
  | [] => some []
  | a :: rest =>
    if a = ['-', '-'] then some (.separator :: rest.map fun _ => .value)
    else
      match classify a, classifyAll rest with
      | some w, some ws => some (w :: ws)
      | _, _ => none

/-- How the reading of one argument's options ends. -/
inductive Tail where
  /-- Nothing is left. -/
  | done
  /-- The last option takes the next argument as its value. -/
  | needsValue (f : Flag)
  deriving DecidableEq, Repr

/-- The options of one argument, read from option `f`, spelled `sp`, with `text` attached to
it: each option with its value, and how the reading ends; `none` when the text is refused. An
option that takes a value takes all of the text. A one-letter option that takes none passes the
text on to the one-letter option of its first character, which takes the rest; a long one, or
one with empty text attached, refuses it. -/
def cluster (f : Flag) (sp : List Char) (text : List Char) :
    Option (List (Flag × Option (List Char)) × Tail) :=
  if f.takesValue then some ([(f, some text)], .done)
  else
    match sp, text with
    | [_, _], t :: more =>
      match lookup ['-', t] with
      | none => none
      | some g =>
        let after : Option (List (Flag × Option (List Char)) × Tail) :=
          match _h : more with
          | [] => if g.takesValue then some ([], .needsValue g) else some ([(g, none)], .done)
          | _ :: _ => cluster g ['-', t] more
        after.map fun (acts, tail) => ((f, none) :: acts, tail)
    | _, _ => none
termination_by text.length
decreasing_by subst_vars; simp only [List.length_cons]; omega

/-- What an option that takes a value holds. -/
inductive Held (α : Type) where
  /-- One value: the one it was given, or its default. -/
  | given (a : α)
  /-- An empty list of values: the only text given for it was `--`, which is dropped. -/
  | empty
  deriving DecidableEq, Repr

/-- The text `--`, which is dropped from an option's values. -/
def separatorWord : List Char := ['-', '-']

/-- The settings a command line asks for. -/
structure Options where
  /-- The trace level. -/
  verbosity : Nat := 0
  /-- Whether `!` and `@` show anything. -/
  debug : Bool := false
  /-- The function to run. -/
  entry : Held String := .given "main"
  /-- The starting register. -/
  register : Held Nat := .given 0
  /-- The program files, in order; `-` stands for standard input. -/
  programs : List String := []
  deriving DecidableEq, Repr

/-- What a command line comes to. -/
inductive Parse where
  /-- Run with these settings. -/
  | run (o : Options)
  /-- Show the usage text. -/
  | help
  /-- The command line is refused. -/
  | refused
  deriving DecidableEq, Repr

/-- The value of a register given in ASCII decimal digits. -/
def registerValue (cs : List Char) : Option Nat :=
  if !cs.isEmpty && cs.all Char.isDigit then
    some (cs.foldl (fun n c => 10 * n + (c.toNat - '0'.toNat)) 0)
  else none

/-- The effect of one option with its value. -/
def apply (o : Options) : Flag × Option (List Char) → Except Parse Options
  | (.help, _) => .error .help
  | (.verbose, _) => .ok { o with verbosity := o.verbosity + 1 }
  | (.debug, _) => .ok { o with debug := true }
  | (.entry, v) =>
    if v = some separatorWord then .ok { o with entry := .empty }
    else .ok { o with entry := .given (String.ofList (v.getD [])) }
  | (.register, v) =>
    if v = some separatorWord then .ok { o with register := .empty }
    else
      match registerValue (v.getD []) with
      | some n => .ok { o with register := .given n }
      | none => .error .refused

/-- The effects of options in order, up to the first that stops the reading. -/
def applyAll (o : Options) : List (Flag × Option (List Char)) → Except Parse Options
  | [] => .ok o
  | a :: rest => do applyAll (← apply o a) rest

/-- How far the program files are read: not yet, being read, or read. -/
inductive Operands where
  /-- No run of program files yet. -/
  | pending
  /-- Inside the run of program files, with those read so far, the latest first. -/
  | reading (files : List String)
  /-- The program files were read. -/
  | taken (files : List String)
  deriving DecidableEq, Repr

/-- The program files once a run of them has ended. -/
def Operands.close : Operands → Operands
  | .reading fs => .taken fs
  | o => o

/-- Reads classified arguments from left to right, with the settings so far, how far the
program files are read, and whether an argument was left over. -/
def consume : List (List Char × Word) → Options → Operands → Bool → Parse
  | [], o, files, stray =>
    match files.close with
    | .taken fs => if stray then .refused else .run { o with programs := fs.reverse }
    | _ => .refused
  | (_, .option none) :: rest, o, files, _ => consume rest o files.close true
  | (_, .option (some h)) :: rest, o, files, stray =>
    let files := files.close
    let reading : Option (List (Flag × Option (List Char)) × Tail) :=
      match h.attached with
      | some text => cluster h.flag h.spelling text
      | none => if h.flag.takesValue then some ([], .needsValue h.flag) else some ([(h.flag, none)], .done)
    match reading with
    | none => .refused
    | some (acts, .done) =>
      match applyAll o acts with
      | .ok o => consume rest o files stray
      | .error p => p
    | some (acts, .needsValue g) =>
      match rest with
      | (v, .value) :: rest =>
        match applyAll o (acts ++ [(g, some v)]) with
        | .ok o => consume rest o files stray
        | .error p => p
      | _ => .refused
  | (a, .value) :: rest, o, files, stray =>
    match files with
    | .pending => consume rest o (.reading [String.ofList a]) stray
    | .reading fs => consume rest o (.reading (String.ofList a :: fs)) stray
    | .taken _ => consume rest o files true
  | (_, .separator) :: rest, o, files, stray =>
    -- the first `--` may open the run of program files, and is dropped from it
    match files, rest with
    | .pending, _ :: _ => consume rest o (.reading []) stray
    | .reading fs, _ => consume rest o (.reading fs) stray
    | _, _ => consume rest o files true

/-- The settings a command line asks for. -/
def parse (argv : List String) : Parse :=
  let args := argv.map String.toList
  match classifyAll args with
  | none => .refused
  | some words => consume (args.zip words) {} .pending false

end Cli

end Abacus
