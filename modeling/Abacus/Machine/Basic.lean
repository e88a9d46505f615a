import Abacus.Program.Basic

/-!
# The machine

A program runs on one register, a natural number, and reads its own text one token at a time.
The machine holds:

* the register;
* the mode: `success`, or `failed` after a `-` on a zero register;
* the depth of nesting: how many groups are entered and not yet closed;
* one saved register per group entered and not yet closed, the innermost first;
* the chain of calls, the innermost first; each frame records the depth when the function was
  entered, where to go back to (nothing for the function the run started with) and its name;
* whether the run is finished, and its result: the register, or nothing when the first function's
  body closed in the failed mode;
* the address of the next token.

A step may show the register or the chain of calls (`!` and `@`), and may report what it did to
a trace; `Event` lists the reports, each with the least trace level that writes it.

## Main definitions

* `Mode`, `Frame`, `Machine`.
* `Display`, `Display.render` — what `!` and `@` show.
* `Event`, `Event.level`, `Event.render` — the lines of a trace.
* `Effect`, `Effect.final`, `Step` — what one step does.
-/

namespace Abacus

/-- Whether the machine is running normally or looking for a way out of a failure. -/
inductive Mode where
  /-- Tokens take effect. -/
  | success
  /-- Tokens are passed over until an alternative or a close. -/
  | failed
  deriving DecidableEq, Repr, Inhabited

namespace Mode

/-- The word for a mode. -/
def render : Mode → String
  | success => "success"
  | failed => "failed"

/-- The word for a mode, padded with blanks to seven characters. -/
def padded : Mode → String
  | success => "success"
  | failed => "failed "

end Mode

/-- A call in progress. -/
structure Frame where
  /-- The depth of nesting when the function was entered; its body closes back to it. -/
  depth : Nat
  /-- Where to go on after the function, or nothing for the function the run started with. -/
  returnTo : Option Address
  /-- The function's name. -/
  name : Bytes
  deriving DecidableEq, Repr

/-- The state of a run. -/
structure Machine where
  /-- The register. -/
  register : Nat
  /-- The mode. -/
  mode : Mode
  /-- The depth of nesting: the number of groups entered and not closed. -/
  depth : Nat
  /-- One saved register for each group entered and not closed, the innermost first. -/
  snapshots : List Nat
  /-- The calls in progress, the innermost first. -/
  frames : List Frame
  /-- Whether the first function's body has closed. -/
  finished : Bool
  /-- The register when the run finished in the success mode. -/
  result : Option Nat
  /-- The address of the next token. -/
  pc : Address
  deriving DecidableEq, Repr

namespace Machine

/-- The machine before any run: nothing entered, at the start of the first source. -/
def initial : Machine :=
  ⟨0, .success, 0, [], [], false, none, ⟨0, 0⟩⟩

/-- The name of the innermost call, when there is one. -/
def current? (m : Machine) : Option Bytes := m.frames.head?.map (·.name)

end Machine

/-- What `!` and `@` show. -/
inductive Display where
  /-- The register, in decimal. -/
  | register (n : Nat)
  /-- The names of the calls in progress, the innermost first. -/
  | calls (names : List Bytes)
  deriving DecidableEq, Repr

namespace Display

/-- A display as a line: the register in decimal, or the names joined by blanks. -/
def render : Display → Text
  | register n => Text.ofString (toString n ++ "\n")
  | calls names =>
    (Text.ofString " ").intercalate (names.map Text.ofBytes) ++ Text.ofString "\n"

end Display

/-- A line of a trace. -/
inductive Event where
  /-- A run starts function `entry` at an address with a register. -/
  | enter (entry : Bytes) (address : Address) (register : Nat)
  /-- The machine, as it stands, reads a token. -/
  | token (mode : Mode) (depth : Nat) (register : Nat) (word : Bytes)
  /-- A call of `name` at a depth, to come back to an address. -/
  | call (name : Bytes) (depth : Nat) (returnTo : Address)
  /-- A `-` on a zero register in function `name` at a depth. -/
  | fail (name : Bytes) (depth : Nat)
  /-- A `|` in the success mode passes over the rest of its group, to the close at `close`. -/
  | skip (source : Nat) (close : Nat)
  /-- A `|` in the failed mode restores the register saved when its group was entered. -/
  | backtrack (depth : Nat) (register : Nat)
  /-- The body of `name` closed in a mode; the run goes on at an address. -/
  | leave (name : Bytes) (mode : Mode) (returnTo : Address)
  /-- The first function's body closed, with its result. -/
  | exit (entry : Bytes) (result : Option Nat)
  deriving DecidableEq, Repr

namespace Event

/-- The least trace level at which an event is written. -/
def level : Event → Nat
  | enter .. | call .. | leave .. | exit .. => 1
  | fail .. | skip .. | backtrack .. => 2
  | token .. => 3

/-- The line of an event, without its line feed. -/
def render : Event → Text
  | enter e a r =>
    Text.ofString "enter " ++ Text.ofBytes e ++
      Text.ofString (" at " ++ a.render ++ " with register " ++ toString r)
  | token m d r w =>
    Text.ofString (m.padded ++ " depth=" ++ toString d ++ " register=" ++ toString r ++
      " token=") ++ Text.ofBytes w
  | call f d a =>
    Text.ofString "call " ++ Text.ofBytes f ++
      Text.ofString (" at depth " ++ toString d ++ ", return to " ++ a.render)
  | fail f d => Text.ofString "fail in " ++ Text.ofBytes f ++ Text.ofString (" at depth " ++ toString d)
  | skip s c => Text.ofString ("skip alternative to " ++ toString s ++ ":" ++ toString c)
  | backtrack d r =>
    Text.ofString ("backtrack at depth " ++ toString d ++ ", register restored to " ++ toString r)
  | leave f m a =>
    Text.ofString "return from " ++ Text.ofBytes f ++
      Text.ofString (" (" ++ m.render ++ ") to " ++ a.render)
  | exit e r =>
    Text.ofString "exit " ++ Text.ofBytes e ++ Text.ofString (": " ++
      match r with
      | some n => toString n
      | none => "no value")

end Event

/-- What a step does once its token is read. A report is made after the token's changes to the
machine and before the move, so a report that cannot be written leaves the machine unmoved. -/
structure Effect where
  /-- The machine after the token's changes. -/
  machine : Machine
  /-- What the token shows, if anything. -/
  display : Option Display := none
  /-- What the token reports to the trace, if anything. -/
  report : Option Event := none
  /-- Where the run goes on afterwards, when it jumps. -/
  moveTo : Option Address := none
  deriving DecidableEq, Repr

namespace Effect

/-- The machine after the step, its jump made. -/
def final (e : Effect) : Machine :=
  match e.moveTo with
  | none => e.machine
  | some a => { e.machine with pc := a }

end Effect

/-- One step: the token read, and what it does or the fault it meets. -/
structure Step where
  /-- The token read. -/
  lexeme : Lexeme
  /-- Its effect, or the fault that stops the run. -/
  effect : Except Fault Effect

end Abacus
