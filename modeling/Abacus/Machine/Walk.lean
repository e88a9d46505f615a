import Abacus.Machine.Step

/-!
# Watching a run step by step

A walk starts a machine and lists the machine after every step, with nothing traced. It takes at
most a given number of steps in all; once the run is finished it takes at most a given number of
further steps, which read on past the first function's body as if the program went on there.
A step that meets a fault ends the walk, and the fault stands last in the list.

## Main definitions

* `Machine.walk` — the machines after each step, and what the steps showed.
-/

namespace Abacus

namespace Machine

/-- The machines after each of at most `budget` steps of program `p` from `m`, taking at most
`extra` steps once the run has finished, and what those steps showed when `debug` is set. -/
def walk (p : Program) (debug : Bool) : Nat → Nat → Machine → List (Except Fault Machine) × Text
  | 0, _, _ => ([], [])
  | budget + 1, extra, m =>
    if m.finished && extra = 0 then ([], [])
    else
      let extra := if m.finished then extra - 1 else extra
      match m.step p with
      | .error f => ([.error f], [])
      | .ok st =>
        match st.effect with
        | .error f => ([.error f], [])
        | .ok e =>
          let shown := match debug, e.display with
            | true, some d => d.render
            | _, _ => []
          let (rest, out) := walk p debug budget extra e.final
          (.ok e.final :: rest, shown ++ out)

end Machine

end Abacus
