import Abacus.Machine.Step

/-!
# Sessions and runs

A session holds a program and one machine, and runs functions of the program one after another
on that machine. Each run starts afresh (`Machine.start`), so what an earlier run left behind
matters only when a run is refused before it starts: a negative register, or a function that is
not defined, leaves the machine as it was.

A run steps until the first function's body closes. What `!` and `@` show goes to the run's
output when the session shows it (`debug`). A positive trace level opens a trace at the start of
the run, before the function is looked up, and each report at or below that level is written to
it as a line. A trace is written as UTF-8, so a line that holds a stray byte of a function name
cannot be written: the run stops there with an encoding fault that names the first run of stray
bytes in the line, and the machine stays as it was when the line was due.

A run is given fuel, a number of steps, because a program may loop for ever; the outcome says
when the fuel ran out.

## Main definitions

* `Log`, `Log.display`, `Log.write` — the output and trace of a run so far.
* `Outcome`, `Report` — how a run ended, with what it showed and traced.
* `Session`, `Session.advance`, `Session.loop`, `Session.run`.
-/

namespace Abacus

/-- What a run has shown and traced so far, the latest first. -/
structure Log where
  /-- The displays shown, the latest first. -/
  out : List Text
  /-- The trace lines written, the latest first; `none` when no trace is open. -/
  trace : Option (List String)
  deriving DecidableEq, Repr

namespace Log

/-- A log with nothing shown, and an empty trace when `traced`. -/
def empty (traced : Bool) : Log := ⟨[], if traced then some [] else none⟩

/-- Shows a display, when the session shows them. -/
def display (debug : Bool) (d : Option Display) (log : Log) : Log :=
  match debug, d with
  | true, some d => { log with out := d.render :: log.out }
  | _, _ => log

/-- Writes an event to the trace when the trace level reaches its level; an event whose line
holds stray bytes is an encoding fault. -/
def write (level : Int) (e : Event) (log : Log) : Except Fault Log :=
  if level < e.level then .ok log
  else
    match log.trace with
    | none => .ok log
    | some lines =>
      match Text.encode e.render with
      | .ok line => .ok { log with trace := some (line :: lines) }
      | .error (i, run) => .error (.unencodable i run)

/-- Everything shown, in order. -/
def shown (log : Log) : Text := log.out.reverse.flatten

/-- The trace text, each line ended by a line feed. -/
def traced (log : Log) : Option String :=
  log.trace.map fun lines => String.join (lines.reverse.map (· ++ "\n"))

end Log

/-- How a run ended. -/
inductive Outcome where
  /-- The first function's body closed: with the register, or with no value in the failed mode. -/
  | done (result : Option Nat)
  /-- A fault stopped the run. -/
  | stopped (f : Fault)
  /-- The fuel ran out first. -/
  | outOfFuel
  deriving DecidableEq, Repr

/-- How a run ended, with what it showed and traced. -/
structure Report where
  /-- How the run ended. -/
  outcome : Outcome
  /-- What `!` and `@` showed. -/
  out : Text
  /-- The trace, when the run opened one. -/
  trace : Option String
  deriving DecidableEq, Repr

/-- A program with one machine that runs its functions one after another. -/
structure Session where
  /-- The program. -/
  program : Program
  /-- Whether `!` and `@` show anything. -/
  debug : Bool
  /-- The trace level: nothing is traced at zero or below. -/
  level : Int
  /-- The machine, as the last run left it. -/
  machine : Machine

namespace Session

/-- A session on a list of sources, once they are indexed, with no trace and a machine that has
run nothing. -/
def load (sources : List Source) (debug : Bool) : Except Fault Session :=
  (Program.load sources).map fun p => ⟨p, debug, 0, Machine.initial⟩

/-- One step of a run, with its writes: the trace line of the token at level three, the display,
and the step's report. A fault gives the machine as it stands at the fault. -/
def advance (s : Session) (m : Machine) (log : Log) :
    Except (Fault × Machine × Log) (Machine × Log) :=
  match m.step s.program with
  | .error f => .error (f, m, log)
  | .ok st =>
    -- the token's own line is written before the token acts
    match log.write s.level (.token m.mode m.depth m.register st.lexeme.word) with
    | .error f => .error (f, m, log)
    | .ok log =>
      match st.effect with
      | .error f => .error (f, m, log)
      | .ok e =>
        let log := log.display s.debug e.display
        match e.report with
        | none => .ok (e.final, log)
        | some r =>
          match log.write s.level r with
          | .error f => .error (f, e.machine, log)
          | .ok log => .ok (e.final, log)

/-- Steps until the run finishes, a fault stops it, or `fuel` steps have been taken. -/
def loop (s : Session) : Nat → Machine → Log → Outcome × Machine × Log
  | fuel, m, log =>
    if m.finished then (.done m.result, m, log)
    else
      match fuel with
      | 0 => (.outOfFuel, m, log)
      | k + 1 =>
        match s.advance m log with
        | .error (f, m, log) => (.stopped f, m, log)
        | .ok (m, log) => s.loop k m log

/-- The report of a run that ended with `o` and log `log`. -/
def report (o : Outcome) (log : Log) : Report := ⟨o, log.shown, log.traced⟩

/-- Runs function `entry` from `register`, with at most `fuel` steps, and gives the report and
the session as the run leaves it. -/
def run (s : Session) (entry : Bytes) (register : Int) (fuel : Nat) : Report × Session :=
  if register < 0 then (report (.stopped (.negativeRegister register)) (Log.empty false), s)
  else
    let log := Log.empty (0 < s.level)
    match Machine.start s.program entry register.toNat with
    | .error f => (report (.stopped f) log, s)
    | .ok (m, e) =>
      match log.write s.level e with
      | .error f => (report (.stopped f) log, { s with machine := m })
      | .ok log =>
        let (o, m, log) := s.loop fuel m log
        (report o log, { s with machine := m })

end Session

end Abacus
