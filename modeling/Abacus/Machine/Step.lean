import Abacus.Machine.Basic

/-!
# Starting a run and taking a step

A run of function `f` from register `n` starts with the register `n`, in the success mode, with
no group entered and one frame, for `f`, that has nowhere to go back to; the next token is the
first after `f`'s name, its body's `{`.

A step reads the next token and acts on it. In the success mode:

* `+` adds one to the register; `-` takes one away, or, on a zero register, switches to the
  failed mode;
* `{` enters a group and saves the register; `}` closes the innermost group;
* `|` ends the alternative that succeeded: the run passes over the rest of the group and lands
  on its `}`;
* `?` does nothing; `!` shows the register and `@` the chain of calls;
* any other token calls the function of that name: a frame records the depth and the address
  after the token, and the run goes on at the function's body.

In the failed mode, a `{` passes over its whole group, a `}` closes the innermost group, a `|`
restores the register saved by the innermost group and switches back to the success mode, and
every other token is passed over.

Closing a group drops its saved register. When that brings the depth back to where the innermost
call began, the call is over: the run goes back to where the call was made, or, for the first
function, finishes, with the register as result in the success mode and no result in the failed
mode.

## Main definitions

* `Machine.start` — a machine ready to run a function.
* `Machine.close`, `Machine.succeed`, `Machine.recover` — the effect of a token in each mode.
* `Machine.step` — one step.
-/

namespace Abacus

namespace Machine

/-- A machine ready to run function `entry` from register `register`, and its report. -/
def start (p : Program) (entry : Bytes) (register : Nat) : Except Fault (Machine × Event) :=
  match p.table.find? entry with
  | none => .error (.entryNotFound entry)
  | some a => .ok (⟨register, .success, 0, [], [⟨0, none, entry⟩], false, none, a⟩,
      .enter entry a register)

/-- The effect of a `}` read from `src`, ending at `l.stop`; the machine `m` is already past it. -/
def close (src : Source) (m : Machine) (l : Lexeme) : Except Fault Effect :=
  match m.snapshots, m.frames with
  | _ :: saved, f :: outer =>
    let closed := { m with depth := m.depth - 1, snapshots := saved }
    -- the call is over exactly when the group of its body closes
    if closed.depth ≠ f.depth then .ok { machine := closed }
    else
      match f.returnTo with
      | none =>
        let result := if m.mode = .success then some m.register else none
        .ok { machine := { closed with frames := outer, finished := true, result },
              report := some (.exit f.name result) }
      | some a =>
        .ok { machine := { closed with frames := outer },
              report := some (.leave f.name m.mode a),
              moveTo := some a }
  | _, _ => .error (.nothingOpen l.stop src.name)

/-- The effect of token `l` in the success mode; the machine `m` is already past it. -/
def succeed (p : Program) (src : Source) (m : Machine) (l : Lexeme) : Except Fault Effect :=
  match Symbol.ofWord? l.word with
  | some .plus => .ok { machine := { m with register := m.register + 1 } }
  | some .minus =>
    match m.register with
    | 0 =>
      .ok { machine := { m with mode := .failed },
            report := (m.current?).map fun f => .fail f m.depth }
    | n + 1 => .ok { machine := { m with register := n } }
  | some .openBrace =>
    .ok { machine := { m with depth := m.depth + 1, snapshots := m.register :: m.snapshots } }
  | some .closeBrace => close src m l
  | some .bar =>
    match p.close? m.pc with
    | none => .error (.unclosedGroup l.stop src.name)
    | some c =>
      -- land on the `}` itself, so that the next step closes the group
      .ok { machine := { m with pc := ⟨m.pc.source, c.start⟩ },
            report := some (.skip m.pc.source c.start) }
  | some .query => .ok { machine := m }
  | some .bang => .ok { machine := m, display := some (.register m.register) }
  | some .atSign => .ok { machine := m, display := some (.calls (m.frames.map (·.name))) }
  | _ =>
    match p.table.find? l.word with
    | none => .error (.undefinedCall l.word l.stop src.name)
    | some a =>
      .ok { machine := { m with frames := ⟨m.depth, some m.pc, l.word⟩ :: m.frames },
            report := some (.call l.word m.depth m.pc),
            moveTo := some a }

/-- The effect of token `l` in the failed mode; the machine `m` is already past it. -/
def recover (p : Program) (src : Source) (m : Machine) (l : Lexeme) : Except Fault Effect :=
  match Symbol.ofWord? l.word with
  | some .openBrace =>
    match p.close? m.pc with
    | none => .error (.unclosedGroup l.stop src.name)
    | some c => .ok { machine := { m with pc := ⟨m.pc.source, c.stop⟩ } }
  | some .closeBrace => close src m l
  | some .bar =>
    match m.snapshots with
    | [] => .error .noFrame
    | r :: _ =>
      .ok { machine := { m with register := r, mode := .success },
            report := some (.backtrack m.depth r) }
  | _ => .ok { machine := m }

/-- One step of a run of program `p`: the next token and its effect. When no token is left in
the current source, the run has come to the end of it inside the innermost call. -/
def step (p : Program) (m : Machine) : Except Fault Step :=
  let src := p.source m.pc.source
  match p.read m.pc with
  | none =>
    match m.current? with
    | none => .error .noFrame
    | some f => .error (.endOfSource src.name f)
  | some (l, _) =>
    let past := { m with pc := ⟨m.pc.source, l.stop⟩ }
    .ok ⟨l, match m.mode with
      | .success => succeed p src past l
      | .failed => recover p src past l⟩

end Machine

end Abacus
