import Abacus.Proofs.Exec
import Abacus.Proofs.History

/-!
# Display and trace settings change only the text

A session shows the displays of `!` and `@` when `debug` is set, and writes a trace line for
each event at or below its trace level. Neither setting is read by the machine: a step computes
its machine first, and only then are its lines shown and written. So a run with any settings
passes through the machines of the quiet run (no display, trace level 0) and ends as it does,
unless a trace line cannot be written. A trace is written as UTF-8, and a line is refused
exactly when it is due and shows a function name that is not UTF-8: the run then stops with
the encoding fault where that line was due.

Every name a line shows is a token of the program: the run reads only at token boundaries and
returns only to them, and its frames are named by tokens. So when every name token of the
sources is UTF-8, no line is refused, and the run with any settings is the quiet run, machine
for machine.

## Main definitions

* `Event.names` — the function names an event's line shows.
* `Log.Writable` — a line that is not due, or holds no stray byte.
* `Session.quiet` — the same session with no display and no trace.
* `Program.AtToken`, `Program.HasToken`, `Machine.OnTokens` — token boundaries, the tokens of a
  program, and a machine whose addresses and names come from them.

## Main statements

* `Log.write_eq_error_iff` — a due line is refused exactly when it shows a name that is not
  UTF-8.
* `Session.advance_sim`, `Session.advance_of_linesFit` — one step with settings against the
  quiet step.
* `Session.loop_sim`, `Session.loop_eq_quiet` — the loop, with and without settings.
* `Machine.OnTokens.step` — every step keeps a machine on the program's tokens.
* `Session.run_sim`, `Session.run_eq_quiet` — whole runs, from the start.
* `Session.run_settings` — the settings change only the text.
-/

namespace Abacus

/-! ### Lines that can be written -/

namespace Text

theorem chars?_append (a b : Text) :
    chars? (a ++ b) = (chars? a).bind fun x => (chars? b).map (x ++ ·) := by
  induction a with
  | nil => simp
  | cons p a ih =>
    cases p with
    | char c =>
      simp only [List.cons_append, chars?_char, ih]
      cases chars? a <;> cases chars? b <;> simp
    | stray b' => simp

theorem isSome_chars?_append (a b : Text) :
    (chars? (a ++ b)).isSome = ((chars? a).isSome && (chars? b).isSome) := by
  rw [chars?_append]
  cases chars? a <;> cases chars? b <;> simp

theorem encodeChars_eq_ok_iff (t : Text) (cs : List Char) :
    encodeChars t = .ok cs ↔ chars? t = some cs := by
  induction t generalizing cs with
  | nil => simp [encodeChars]
  | cons p t ih =>
    cases p with
    | char c =>
      simp only [encodeChars, chars?_char]
      cases h : encodeChars t with
      | ok xs => simp [(ih xs).1 h]
      | error e =>
        cases hc : chars? t with
        | none => simp
        | some ys =>
          rw [← ih ys, h] at hc
          cases hc
    | stray b => simp [encodeChars]

/-- A text is written out exactly when it holds no stray byte. -/
theorem encode_ok_iff (t : Text) : (∃ str, encode t = .ok str) ↔ (chars? t).isSome := by
  unfold encode
  constructor
  · rintro ⟨str, h⟩
    cases he : encodeChars t with
    | ok cs => simp [(encodeChars_eq_ok_iff t cs).1 he]
    | error e =>
      rw [he] at h
      cases h
  · intro h
    obtain ⟨cs, hcs⟩ := Option.isSome_iff_exists.1 h
    exact ⟨_, by rw [(encodeChars_eq_ok_iff t cs).2 hcs]; rfl⟩

/-- A single byte below `80` is a character. -/
theorem isUtf8_singleton {b : UInt8} (hb : b < 0x80) : isUtf8 [b] = true := by
  rw [isUtf8, ofBytes, Utf8.lead?, if_pos hb]
  simp [ofBytes]

end Text

namespace Event

/-- The function names an event's line shows. -/
def names : Event → List Bytes
  | enter e .. => [e]
  | token _ _ _ w => [w]
  | call f .. => [f]
  | fail f _ => [f]
  | skip .. => []
  | backtrack .. => []
  | leave f .. => [f]
  | exit e _ => [e]

/-- The line of an event holds no stray byte exactly when every name it shows is UTF-8. -/
theorem isSome_chars?_render (ev : Event) :
    (Text.chars? ev.render).isSome = true ↔ ∀ w ∈ ev.names, Text.isUtf8 w = true := by
  cases ev <;> simp [render, names, Text.isSome_chars?_append, Text.isUtf8]

end Event

namespace Log

/-- A line that can be written at a trace level: it is not due, or it holds no stray byte. -/
def Writable (level : Int) (ev : Event) : Prop :=
  level < ev.level ∨ (Text.chars? ev.render).isSome = true

section Write

variable {level : Int} {ev : Event} {log log' : Log} {f : Fault}

theorem write_of_writable (h : Writable level ev) (log : Log) :
    ∃ log', log.write level ev = .ok log' := by
  unfold write
  split
  · exact ⟨_, rfl⟩
  · rcases h with h | h
    · contradiction
    · obtain ⟨str, hstr⟩ := (Text.encode_ok_iff _).2 h
      cases log.trace with
      | none => exact ⟨_, rfl⟩
      | some lines => exact ⟨⟨log.out, some (str :: lines)⟩, by simp only [hstr]⟩

/-- A refused line is due, and the fault is the encoding fault of its text. -/
theorem write_eq_error (h : log.write level ev = .error f) :
    ev.level ≤ level ∧ log.trace.isSome ∧
      ∃ i run, f = .unencodable i run ∧ Text.encode ev.render = .error (i, run) := by
  unfold write at h
  split at h
  · cases h
  · cases ht : log.trace with
    | none =>
      rw [ht] at h
      cases h
    | some lines =>
      rw [ht] at h
      cases he : Text.encode ev.render with
      | ok line =>
        rw [he] at h
        cases h
      | error e =>
        rw [he] at h
        cases h
        exact ⟨by omega, rfl, _, _, rfl, rfl⟩

/-- **A trace line is refused exactly when it is due and shows a name that is not UTF-8.** -/
theorem write_eq_error_iff (ht : log.trace.isSome) (hl : ev.level ≤ level) :
    (∃ f, log.write level ev = .error f) ↔ ∃ w ∈ ev.names, Text.isUtf8 w = false := by
  constructor
  · rintro ⟨f, h⟩
    obtain ⟨-, -, i, run, -, he⟩ := write_eq_error h
    have hnone : (Text.chars? ev.render).isSome = false := by
      cases hs : (Text.chars? ev.render).isSome
      · rfl
      · obtain ⟨str, hstr⟩ := (Text.encode_ok_iff _).2 hs
        rw [hstr] at he
        cases he
    by_contra hall
    push Not at hall
    rw [(Event.isSome_chars?_render ev).2 fun w hw => by simpa using hall w hw] at hnone
    cases hnone
  · rintro ⟨w, hw, hbad⟩
    have hnone : (Text.chars? ev.render).isSome = false := by
      cases hs : (Text.chars? ev.render).isSome
      · rfl
      · rw [(Event.isSome_chars?_render ev).1 hs w hw] at hbad
        cases hbad
    obtain ⟨lines, hlines⟩ := Option.isSome_iff_exists.1 ht
    cases he : Text.encode ev.render with
    | ok line =>
      have := (Text.encode_ok_iff _).1 ⟨line, he⟩
      rw [hnone] at this
      cases this
    | error e =>
      refine ⟨.unencodable e.1 e.2, ?_⟩
      unfold write
      rw [if_neg (by omega), hlines]
      simp only [he]

theorem out_write (h : log.write level ev = .ok log') : log'.out = log.out := by
  unfold write at h
  split at h
  · cases h
    rfl
  · split at h
    · cases h
      rfl
    · split at h
      · cases h
        rfl
      · cases h

theorem trace_write (h : log.write level ev = .ok log') (ht : log.trace = none) :
    log'.trace = none := by
  unfold write at h
  rw [ht] at h
  split at h <;> (cases h; exact ht)

end Write

theorem display_false (d : Option Display) (log : Log) : log.display false d = log := rfl

theorem trace_display (debug : Bool) (d : Option Display) (log : Log) :
    (log.display debug d).trace = log.trace := by
  unfold display
  split <;> rfl

end Log

/-! ### One step, with and without settings -/

namespace Session

/-- The same session with no display and no trace. -/
def quiet (s : Session) : Session := { s with debug := false, level := 0 }

@[simp] theorem quiet_program (s : Session) : s.quiet.program = s.program := rfl

@[simp] theorem quiet_debug (s : Session) : s.quiet.debug = false := rfl

@[simp] theorem quiet_level (s : Session) : s.quiet.level = 0 := rfl

/-- The lines of the next step can all be written: the token's line and its report's. -/
def LinesFit (s : Session) (m : Machine) : Prop :=
  ∀ st, m.step s.program = .ok st →
    Log.Writable s.level (.token m.mode m.depth m.register st.lexeme.word) ∧
    ∀ e ev, st.effect = .ok e → e.report = some ev → Log.Writable s.level ev

section Step

variable {s : Session} {m m' : Machine} {log log₀ L : Log} {f : Fault}

/-- The quiet step shows and writes nothing: it moves the machine, or meets a fault. -/
theorem quiet_advance (s : Session) (m : Machine) (log : Log) :
    s.quiet.advance m log =
      match m.step s.program with
      | .error f => .error (f, m, log)
      | .ok st =>
        match st.effect with
        | .error f => .error (f, m, log)
        | .ok e => .ok (e.final, log) := by
  unfold advance
  simp only [quiet_program]
  cases m.step s.program with
  | error f => rfl
  | ok st =>
    simp only [quiet, write_zero]
    cases st.effect with
    | error f => rfl
    | ok e =>
      simp only [Log.display_false]
      cases e.report <;> simp

/-- **A step with settings moves the machine as the quiet step does**, or stops where the quiet
step stops, with the same fault, unless a trace line due at it shows a name that is not UTF-8:
then it stops with that line's encoding fault. -/
theorem advance_sim (s : Session) (m : Machine) (log log₀ : Log) :
    (∀ m' L, s.advance m log = .ok (m', L) → s.quiet.advance m log₀ = .ok (m', log₀)) ∧
    (∀ f m' L, s.advance m log = .error (f, m', L) →
      s.quiet.advance m log₀ = .error (f, m', log₀) ∨
      ∃ (ev : Event) (i : Nat) (run : List UInt8), f = .unencodable i run ∧ ev.level ≤ s.level ∧
        (∃ w ∈ ev.names, Text.isUtf8 w = false) ∧ Text.encode ev.render = .error (i, run)) := by
  -- a refused line is due, holds a name that is not UTF-8, and gives the encoding fault
  have refused : ∀ (ev : Event) (lg : Log) f, lg.write s.level ev = .error f →
      ∃ (ev : Event) (i : Nat) (run : List UInt8), f = .unencodable i run ∧ ev.level ≤ s.level ∧
        (∃ w ∈ ev.names, Text.isUtf8 w = false) ∧ Text.encode ev.render = .error (i, run) := by
    intro ev lg f h
    obtain ⟨hl, ht, i, run, rfl, he⟩ := Log.write_eq_error h
    exact ⟨ev, i, run, rfl, hl, (Log.write_eq_error_iff ht hl).1 ⟨_, h⟩, he⟩
  rw [quiet_advance]
  unfold advance
  cases hst : m.step s.program with
  | error f =>
    refine ⟨fun m' L h => ?_, fun f' m' L h => ?_⟩
    · cases h
    · cases h
      exact .inl rfl
  | ok st =>
    dsimp only
    cases hw : Log.write s.level (.token m.mode m.depth m.register st.lexeme.word) log with
    | error f =>
      refine ⟨fun m' L h => ?_, fun f' m' L h => ?_⟩
      · cases h
      · cases h
        exact .inr (refused _ _ _ hw)
    | ok log₁ =>
      dsimp only
      cases he : st.effect with
      | error f =>
        refine ⟨fun m' L h => ?_, fun f' m' L h => ?_⟩
        · cases h
        · cases h
          exact .inl rfl
      | ok e =>
        dsimp only
        cases hr : e.report with
        | none =>
          refine ⟨fun m' L h => ?_, fun f' m' L h => ?_⟩
          · cases h
            rfl
          · cases h
        | some ev =>
          dsimp only
          cases hw' : Log.write s.level ev (log₁.display s.debug e.display) with
          | error f =>
            refine ⟨fun m' L h => ?_, fun f' m' L h => ?_⟩
            · cases h
            · cases h
              exact .inr (refused _ _ _ hw')
          | ok log₂ =>
            refine ⟨fun m' L h => ?_, fun f' m' L h => ?_⟩
            · cases h
              rfl
            · cases h

/-- **When the lines of a step can all be written, the step with settings is the quiet step**,
up to its log. -/
theorem advance_of_linesFit (h : LinesFit s m) (log log₀ : Log) :
    (∀ m' L₀, s.quiet.advance m log₀ = .ok (m', L₀) → ∃ L, s.advance m log = .ok (m', L)) ∧
    (∀ f m' L₀, s.quiet.advance m log₀ = .error (f, m', L₀) →
      ∃ L, s.advance m log = .error (f, m', L)) := by
  rw [quiet_advance]
  unfold advance
  cases hst : m.step s.program with
  | error f =>
    refine ⟨fun m' L₀ h => ?_, fun f' m' L₀ h => ?_⟩
    · cases h
    · cases h
      exact ⟨_, rfl⟩
  | ok st =>
    obtain ⟨htok, hrep⟩ := h st hst
    obtain ⟨log₁, hlog₁⟩ := Log.write_of_writable htok log
    simp only [hlog₁]
    cases he : st.effect with
    | error f =>
      refine ⟨fun m' L₀ h => ?_, fun f' m' L₀ h => ?_⟩
      · cases h
      · cases h
        exact ⟨_, rfl⟩
    | ok e =>
      dsimp only
      refine ⟨fun m' L₀ h => ?_, fun f' m' L₀ h => ?_⟩
      · cases h
        cases hr : e.report with
        | none => exact ⟨_, rfl⟩
        | some ev =>
          obtain ⟨log₂, hlog₂⟩ :=
            Log.write_of_writable (hrep e ev he hr) (log₁.display s.debug e.display)
          exact ⟨log₂, by simp only [hlog₂]⟩
      · cases h

end Step

/-! ### Whole runs -/

section Loop

variable {s : Session} {m : Machine}

theorem loop_succ (h : m.finished = false) (k : Nat) (log : Log) :
    s.loop (k + 1) m log =
      match s.advance m log with
      | .error (f, m, log) => (.stopped f, m, log)
      | .ok (m, log) => s.loop k m log := by
  rw [loop]
  exact if_neg (by simp [h])

/-- A property of logs that the lines and displays of a session keep holds of the log after a
step, whether the step moves the machine or meets a fault. -/
theorem advance_log (P : Log → Prop) (hw : ∀ ev L L', L.write s.level ev = .ok L' → P L → P L')
    (hd : ∀ d L, P L → P (L.display s.debug d)) {log : Log} (h : P log) :
    (∀ m' L, s.advance m log = .ok (m', L) → P L) ∧
    (∀ f m' L, s.advance m log = .error (f, m', L) → P L) := by
  unfold advance
  cases hst : m.step s.program with
  | error f =>
    refine ⟨fun _ _ h' => ?_, fun _ _ _ h' => ?_⟩ <;> cases h'
    exact h
  | ok st =>
    dsimp only
    cases hw₁ : Log.write s.level (.token m.mode m.depth m.register st.lexeme.word) log with
    | error f =>
      refine ⟨fun _ _ h' => ?_, fun _ _ _ h' => ?_⟩ <;> cases h'
      exact h
    | ok log₁ =>
      have h₁ := hw _ _ _ hw₁ h
      dsimp only
      cases he : st.effect with
      | error f =>
        refine ⟨fun _ _ h' => ?_, fun _ _ _ h' => ?_⟩ <;> cases h'
        exact h₁
      | ok e =>
        have h₂ := hd e.display log₁ h₁
        dsimp only
        cases hr : e.report with
        | none =>
          refine ⟨fun _ _ h' => ?_, fun _ _ _ h' => ?_⟩ <;> cases h'
          exact h₂
        | some ev =>
          dsimp only
          cases hw₂ : Log.write s.level ev (log₁.display s.debug e.display) with
          | error f =>
            refine ⟨fun _ _ h' => ?_, fun _ _ _ h' => ?_⟩ <;> cases h'
            exact h₂
          | ok log₂ =>
            refine ⟨fun _ _ h' => ?_, fun _ _ _ h' => ?_⟩ <;> cases h'
            exact hw _ _ _ hw₂ h₂

/-- A property of logs that the lines and displays of a session keep holds of the log a run
leaves. The induction is on the fuel, each step by `advance_log`. -/
theorem loop_log (P : Log → Prop) (hw : ∀ ev L L', L.write s.level ev = .ok L' → P L → P L')
    (hd : ∀ d L, P L → P (L.display s.debug d)) :
    ∀ (fuel : Nat) (m : Machine) (log : Log), P log → P (s.loop fuel m log).2.2 := by
  intro fuel
  induction fuel with
  | zero =>
    intro m log h
    cases hf : m.finished
    · rw [loop_zero hf]
      exact h
    · rw [loop_finished hf]
      exact h
  | succ k ih =>
    intro m log h
    cases hf : m.finished
    · rw [loop_succ hf]
      cases ha : s.advance m log with
      | ok r =>
        obtain ⟨m', L⟩ := r
        exact ih m' L ((advance_log P hw hd h).1 m' L ha)
      | error r =>
        obtain ⟨f, m', L⟩ := r
        exact (advance_log P hw hd h).2 f m' L ha
    · rw [loop_finished hf]
      exact h

/-- **A run with settings ends as the quiet run**, with the same machine, or is stopped by a trace
line that is due and shows a name that is not UTF-8. The induction is on the fuel; each step is
`advance_sim`. -/
theorem loop_sim (s : Session) :
    ∀ (fuel : Nat) (m : Machine) (log log₀ : Log),
      ((s.loop fuel m log).1 = (s.quiet.loop fuel m log₀).1 ∧
        (s.loop fuel m log).2.1 = (s.quiet.loop fuel m log₀).2.1) ∨
      ∃ (ev : Event) (i : Nat) (run : List UInt8),
        (s.loop fuel m log).1 = .stopped (.unencodable i run) ∧ ev.level ≤ s.level ∧
        (∃ w ∈ ev.names, Text.isUtf8 w = false) ∧ Text.encode ev.render = .error (i, run) := by
  intro fuel
  induction fuel with
  | zero =>
    intro m log log₀
    cases hf : m.finished
    · exact .inl ⟨by rw [loop_zero hf, loop_zero hf], by rw [loop_zero hf, loop_zero hf]⟩
    · exact .inl ⟨by rw [loop_finished hf, loop_finished hf],
        by rw [loop_finished hf, loop_finished hf]⟩
  | succ k ih =>
    intro m log log₀
    cases hf : m.finished
    · obtain ⟨hok, herr⟩ := advance_sim s m log log₀
      rw [loop_succ hf, loop_succ hf]
      cases h : s.advance m log with
      | ok r =>
        obtain ⟨m', L⟩ := r
        rw [hok m' L h]
        exact ih m' L log₀
      | error r =>
        obtain ⟨f, m', L⟩ := r
        rcases herr f m' L h with hq | ⟨ev, i, run, rfl, hl, hbad, he⟩
        · rw [hq]
          exact .inl ⟨rfl, rfl⟩
        · exact .inr ⟨ev, i, run, rfl, hl, hbad, he⟩
    · exact .inl ⟨by rw [loop_finished hf, loop_finished hf],
        by rw [loop_finished hf, loop_finished hf]⟩

/-- The quiet step, when it moves the machine, takes a step of the machine with no fault. -/
theorem quiet_advance_eq_ok {log log' : Log} {m' : Machine}
    (h : s.quiet.advance m log = .ok (m', log')) :
    ∃ st e, m.step s.program = .ok st ∧ st.effect = .ok e ∧ m' = e.final := by
  rw [quiet_advance] at h
  cases hst : m.step s.program with
  | error f =>
    rw [hst] at h
    cases h
  | ok st =>
    rw [hst] at h
    dsimp only at h
    cases he : st.effect with
    | error f =>
      rw [he] at h
      cases h
    | ok e =>
      rw [he] at h
      cases h
      exact ⟨st, e, rfl, he, rfl⟩

/-- **Where every line can be written, a run with settings is the quiet run**, machine for
machine: for an invariant of the machines a run passes through under which the lines of each
step fit. -/
theorem loop_eq_quiet {I : Machine → Prop} (hfit : ∀ m, I m → LinesFit s m)
    (hstep : ∀ m st e, I m → m.step s.program = .ok st → st.effect = .ok e → I e.final) :
    ∀ (fuel : Nat) (m : Machine) (log log₀ : Log), I m →
      (s.loop fuel m log).1 = (s.quiet.loop fuel m log₀).1 ∧
        (s.loop fuel m log).2.1 = (s.quiet.loop fuel m log₀).2.1 := by
  intro fuel
  induction fuel with
  | zero =>
    intro m log log₀ _
    cases hf : m.finished
    · exact ⟨by rw [loop_zero hf, loop_zero hf], by rw [loop_zero hf, loop_zero hf]⟩
    · exact ⟨by rw [loop_finished hf, loop_finished hf], by rw [loop_finished hf, loop_finished hf]⟩
  | succ k ih =>
    intro m log log₀ hI
    cases hf : m.finished
    · obtain ⟨hok, herr⟩ := advance_of_linesFit (hfit m hI) log log₀
      rw [loop_succ hf, loop_succ hf]
      cases hq : s.quiet.advance m log₀ with
      | ok r =>
        obtain ⟨m', L₀⟩ := r
        -- the quiet step takes a step of the machine, which keeps the invariant
        obtain ⟨st, e, hst, he, rfl⟩ := quiet_advance_eq_ok hq
        obtain ⟨L, hL⟩ := hok e.final L₀ hq
        rw [hL]
        exact ih e.final L L₀ (hstep m st e hI hst he)
      | error r =>
        obtain ⟨f, m', L₀⟩ := r
        obtain ⟨L, hL⟩ := herr f m' L₀ hq
        rw [hL]
        exact ⟨rfl, rfl⟩
    · exact ⟨by rw [loop_finished hf, loop_finished hf], by rw [loop_finished hf, loop_finished hf]⟩

end Loop

end Session

/-! ### Machines on the program's tokens -/

namespace Program

/-- An address at a token boundary: the tokens from it are the last tokens of its source. -/
def AtToken (p : Program) (a : Address) : Prop :=
  ∃ pre, p.view ⟨a.source, 0⟩ = pre ++ p.view a

/-- A word that is a token of one of the program's sources. -/
def HasToken (p : Program) (w : Bytes) : Prop :=
  ∃ i, ∃ l ∈ p.view ⟨i, 0⟩, l.word = w

section Tokens

variable {p : Program} {a : Address} {l : Lexeme} {ls : List Lexeme}

/-- A token of a source starts and ends at token boundaries. -/
theorem atToken_of_eq_append {i : Nat} {pre rest : List Lexeme}
    (h : p.view ⟨i, 0⟩ = pre ++ l :: rest) : p.AtToken ⟨i, l.start⟩ ∧ p.AtToken ⟨i, l.stop⟩ := by
  obtain ⟨hstart, hstop⟩ := view_of_eq_append h
  refine ⟨⟨pre, ?_⟩, ⟨pre ++ [l], ?_⟩⟩
  · rw [hstart]
    exact h
  · rw [hstop]
    simpa using h

/-- Reading at a token boundary gives a token of the program, and leaves a boundary. -/
theorem AtToken.next (h : p.AtToken a) (hv : p.view a = l :: ls) :
    p.AtToken ⟨a.source, l.stop⟩ ∧ p.HasToken l.word := by
  obtain ⟨pre, hpre⟩ := h
  rw [hv] at hpre
  exact ⟨(atToken_of_eq_append hpre).2, a.source, l, by simp [hpre], rfl⟩

/-- The close of a group opened at a token boundary starts and ends at token boundaries. -/
theorem AtToken.close (h : p.AtToken a) {c : Lexeme} (hc : p.close? a = some c) :
    p.AtToken ⟨a.source, c.start⟩ ∧ p.AtToken ⟨a.source, c.stop⟩ := by
  obtain ⟨pre, hpre⟩ := h
  rw [close?_eq_closeOf] at hc
  obtain ⟨⟨c', rest⟩, hcl, rfl⟩ := Option.map_eq_some_iff.1 hc
  obtain ⟨mid, hview, -, -⟩ := Scan.closeOf_eq_some_iff.1 hcl
  rw [hview, ← List.append_assoc] at hpre
  exact atToken_of_eq_append hpre

/-- A function's address is a token boundary, just after its name, which is a token. -/
theorem atToken_of_find? {sources : List Source} (hp : load sources = .ok p) {name : Bytes}
    (ha : p.table.find? name = some a) : p.AtToken a ∧ p.HasToken name := by
  obtain ⟨hsrc, hbuild⟩ := build_of_load hp
  obtain ⟨pre, n, op, inner, c, rest, hls, hn, hstop, -⟩ := Table.find?_definition hbuild ha
  have hview : p.view ⟨a.source, 0⟩ = pre ++ n :: (op :: inner ++ c :: rest) := by
    show Scan.lexemes (p.sources.getD a.source default).bytes 0 = _
    rw [hsrc, hls]
    simp
  have hat := (atToken_of_eq_append hview).2
  rw [hstop] at hat
  exact ⟨hat, a.source, n, by simp [hview], hn⟩

/-- The tokens of a loaded program are tokens of its sources. -/
theorem mem_sources_of_hasToken {sources : List Source} (hp : load sources = .ok p) {w : Bytes}
    (h : p.HasToken w) : ∃ src ∈ sources, ∃ l ∈ Scan.lexemes src.bytes 0, l.word = w := by
  obtain ⟨i, l, hl, rfl⟩ := h
  obtain ⟨hsrc, -⟩ := build_of_load hp
  change l ∈ Scan.lexemes (p.sources.getD i default).bytes 0 at hl
  rw [hsrc, List.getD_eq_getElem?_getD] at hl
  cases hi : sources[i]? with
  | none =>
    -- past the last source the text is empty, and has no token
    rw [hi, Option.getD_none, show (default : Source).bytes = [] from rfl,
      Scan.lexemes_eq_nil rfl] at hl
    cases hl
  | some src =>
    rw [hi, Option.getD_some] at hl
    exact ⟨src, List.mem_of_getElem? hi, l, hl, rfl⟩

end Tokens

end Program

/-- A reserved token is a single byte below `80`, so it is UTF-8. -/
theorem Symbol.isUtf8_toByte (s : Symbol) : Text.isUtf8 [s.toByte] = true :=
  Text.isUtf8_singleton (by cases s <;> decide)

/-- Where every name token of the sources is UTF-8, every token of the program is. -/
theorem Program.isUtf8_of_hasToken {sources : List Source} {p : Program}
    (hp : Program.load sources = .ok p)
    (hu : ∀ src ∈ sources, ∀ l ∈ Scan.lexemes src.bytes 0, isName l.word = true →
      Text.isUtf8 l.word = true) {w : Bytes} (h : p.HasToken w) : Text.isUtf8 w = true := by
  obtain ⟨src, hsrc, l, hl, rfl⟩ := Program.mem_sources_of_hasToken hp h
  cases hn : isName l.word
  · -- a token that names nothing is a reserved byte
    have hres : Symbol.ofWord? l.word ≠ none := fun h => by
      rw [isName_iff_ofWord?_eq_none.2 h] at hn
      cases hn
    obtain ⟨sym, hsym⟩ := Option.ne_none_iff_exists'.1 hres
    rw [Symbol.ofWord?_eq_some_iff.1 hsym]
    exact Symbol.isUtf8_toByte sym
  · exact hu src hsrc l hl hn

namespace Machine

/-- A machine on the program's tokens: it reads at a token boundary, every frame returns to
one, and every frame is named by a token. -/
structure OnTokens (p : Program) (m : Machine) : Prop where
  pc : p.AtToken m.pc
  returns : ∀ f ∈ m.frames, ∀ a, f.returnTo = some a → p.AtToken a
  names : ∀ f ∈ m.frames, p.HasToken f.name

end Machine

/-- An effect that leaves the machine on the program's tokens and reports only names that are
tokens of the program. -/
def Effect.OnTokens (p : Program) (e : Effect) : Prop :=
  e.final.OnTokens p ∧ ∀ ev, e.report = some ev → ∀ w ∈ ev.names, p.HasToken w

namespace Machine

section OnTokens

variable {sources : List Source} {p : Program} {m : Machine} {l : Lexeme} {ls : List Lexeme}
  {e : Effect}

/-- An effect that keeps where the machine reads and its frames, and reports no name that is
not a token, keeps it on the tokens. -/
theorem OnTokens.stay (h : m.OnTokens p) (hpc : e.machine.pc = m.pc)
    (hfr : e.machine.frames = m.frames) (hmv : e.moveTo = none)
    (hr : ∀ ev, e.report = some ev → ∀ w ∈ ev.names, p.HasToken w) : e.OnTokens p := by
  refine ⟨?_, hr⟩
  rw [Effect.final, hmv]
  exact ⟨hpc ▸ h.pc, hfr ▸ h.returns, hfr ▸ h.names⟩

theorem OnTokens.close (h : m.OnTokens p) (src : Source) (l : Lexeme)
    (he : Machine.close src m l = .ok e) : e.OnTokens p := by
  unfold Machine.close at he
  cases hss : m.snapshots with
  | nil =>
    simp only [hss] at he
    cases he
  | cons r saved =>
    cases hfs : m.frames with
    | nil =>
      simp only [hss, hfs] at he
      cases he
    | cons f outer =>
      simp only [hss, hfs] at he
      have hf : f ∈ m.frames := by simp [hfs]
      have hout : ∀ g ∈ outer, g ∈ m.frames := fun g hg => by simp [hfs, hg]
      split at he
      · -- a group inside the body closes
        cases he
        exact h.stay rfl hfs.symm rfl (by simp)
      · -- the call is over: its frame goes, and a return goes back to the frame's address
        have hname : ∀ ev : Event, ev.names = [f.name] → ∀ w ∈ ev.names, p.HasToken w := by
          intro ev hev w hw
          rw [hev, List.mem_singleton] at hw
          exact hw ▸ h.names f hf
        cases hret : f.returnTo with
        | none =>
          simp only [hret] at he
          cases he
          exact ⟨⟨h.pc, fun g hg => h.returns g (hout g hg), fun g hg => h.names g (hout g hg)⟩,
            fun ev hev => by cases hev; exact hname _ rfl⟩
        | some a =>
          simp only [hret] at he
          cases he
          exact ⟨⟨h.returns f hf a hret, fun g hg => h.returns g (hout g hg),
            fun g hg => h.names g (hout g hg)⟩, fun ev hev => by cases hev; exact hname _ rfl⟩

/-- Every token read in the success mode keeps the machine on the tokens: a `|` lands on the
close of its group, and a call pushes a frame that returns to a boundary and is named by the
token read. -/
theorem OnTokens.succeed (hp : Program.load sources = .ok p) (h : m.OnTokens p)
    (hl : p.HasToken l.word) (src : Source) (he : Machine.succeed p src m l = .ok e) :
    e.OnTokens p := by
  unfold Machine.succeed at he
  split at he
  · cases he
    exact h.stay rfl rfl rfl (by simp)
  · split at he
    · -- a `-` on zero reports a failure in the innermost call
      cases he
      refine h.stay rfl rfl rfl fun ev hev w hw => ?_
      cases hfs : m.frames with
      | nil => simp [current?, hfs] at hev
      | cons f fs =>
        simp only [current?, hfs, List.head?_cons, Option.map_some, Option.some.injEq] at hev
        subst hev
        simp only [Event.names, List.mem_singleton] at hw
        exact hw ▸ h.names f (by simp [hfs])
    · cases he
      exact h.stay rfl rfl rfl (by simp)
  · cases he
    exact h.stay rfl rfl rfl (by simp)
  · exact h.close src l he
  · split at he
    · cases he
    · next c hc =>
      cases he
      exact ⟨⟨(h.pc.close hc).1, h.returns, h.names⟩, fun ev hev => by cases hev; simp [Event.names]⟩
  · cases he
    exact h.stay rfl rfl rfl (by simp)
  · cases he
    exact h.stay rfl rfl rfl (by simp)
  · cases he
    exact h.stay rfl rfl rfl (by simp)
  · split at he
    · cases he
    · next a ha =>
      cases he
      obtain ⟨hat, -⟩ := Program.atToken_of_find? hp ha
      refine ⟨⟨hat, ?_, ?_⟩, fun ev hev => ?_⟩
      · intro f hf a' hr
        rcases List.mem_cons.1 hf with rfl | hf
        · cases hr
          exact h.pc
        · exact h.returns f hf a' hr
      · intro f hf
        rcases List.mem_cons.1 hf with rfl | hf
        · exact hl
        · exact h.names f hf
      · cases hev
        intro w hw
        simp only [Event.names, List.mem_singleton] at hw
        exact hw ▸ hl

/-- Every token read in the failed mode keeps the machine on the tokens: a `{` passes over its
group to the boundary after its close. -/
theorem OnTokens.recover (h : m.OnTokens p) (src : Source)
    (he : Machine.recover p src m l = .ok e) : e.OnTokens p := by
  unfold Machine.recover at he
  split at he
  · split at he
    · cases he
    · next c hc =>
      cases he
      exact ⟨⟨(h.pc.close hc).2, h.returns, h.names⟩, fun ev hev => by cases hev⟩
  · exact h.close src l he
  · split at he
    · cases he
    · cases he
      exact h.stay rfl rfl rfl (by simp [Event.names])
  · cases he
    exact h.stay rfl rfl rfl (by simp)

/-- **Every step keeps a machine on the program's tokens.** The token read is a token of the
program, and the step's effect keeps the machine on the tokens and reports only names that are
tokens. -/
theorem OnTokens.step (hp : Program.load sources = .ok p) (h : m.OnTokens p) {st : Step}
    (hs : m.step p = .ok st) : p.HasToken st.lexeme.word ∧ ∀ e, st.effect = .ok e → e.OnTokens p := by
  cases hv : p.view m.pc with
  | nil =>
    -- nothing is left to read: the step meets a fault
    have hr : p.read m.pc = none := by
      rw [Program.read_eq]
      exact Scan.read_eq_none_iff.2 hv
    unfold Machine.step at hs
    rw [hr] at hs
    cases hc : m.current? <;> simp [hc] at hs
  | cons l ls =>
    obtain ⟨hnext, hl⟩ := h.pc.next hv
    have hpast : OnTokens p { m with pc := ⟨m.pc.source, l.stop⟩ } := ⟨hnext, h.returns, h.names⟩
    cases hm : m.mode with
    | success =>
      rw [step_of_view_success hv hm] at hs
      cases hs
      exact ⟨hl, fun e he => hpast.succeed hp hl _ he⟩
    | failed =>
      rw [step_of_view_failed hv hm] at hs
      cases hs
      exact ⟨hl, fun e he => hpast.recover _ he⟩

/-- A run starts on the program's tokens, and its first report names a token. -/
theorem OnTokens.start (hp : Program.load sources = .ok p) {entry : Bytes} {register : Nat}
    {ev : Event} (hs : Machine.start p entry register = .ok (m, ev)) :
    m.OnTokens p ∧ ∀ w ∈ ev.names, p.HasToken w := by
  unfold Machine.start at hs
  cases ha : p.table.find? entry with
  | none =>
    rw [ha] at hs
    cases hs
  | some a =>
    rw [ha] at hs
    cases hs
    obtain ⟨hat, hname⟩ := Program.atToken_of_find? hp ha
    refine ⟨⟨hat, fun f hf a' hr => ?_, fun f hf => ?_⟩, fun w hw => ?_⟩
    · rw [List.mem_singleton] at hf
      subst hf
      cases hr
    · rw [List.mem_singleton] at hf
      exact hf ▸ hname
    · simp only [Event.names, List.mem_singleton] at hw
      exact hw ▸ hname

end OnTokens

end Machine

/-! ### Whole runs, from the start -/

namespace Session

section Run

variable {sources : List Source} {s : Session} {entry : Bytes} {register : Int} {fuel : Nat}

/-- Where every token of the program is UTF-8, a step from a machine on the tokens can write
all its lines. -/
theorem linesFit_of_onTokens (hp : Program.load sources = .ok s.program)
    (hu : ∀ w, s.program.HasToken w → Text.isUtf8 w = true) {m : Machine}
    (h : m.OnTokens s.program) : LinesFit s m := by
  intro st hs
  obtain ⟨hl, heff⟩ := h.step hp hs
  refine ⟨.inr ((Event.isSome_chars?_render _).2 fun w hw => ?_), fun e ev he hr =>
    .inr ((Event.isSome_chars?_render ev).2 fun w hw => hu w ((heff e he).2 ev hr w hw))⟩
  simp only [Event.names, List.mem_singleton] at hw
  exact hw ▸ hu _ hl

/-! The four ways a run can go: refused for its register, refused at the start, stopped at its
first trace line, or run by the loop. -/

theorem run_of_start_error (hr : ¬register < 0) {f : Fault}
    (hs : Machine.start s.program entry register.toNat = .error f) :
    s.run entry register fuel = (report (.stopped f) (Log.empty (0 < s.level)), s) := by
  rw [run, if_neg hr]
  simp only [hs]

theorem run_of_write_error (hr : ¬register < 0) {m : Machine} {ev : Event} {f : Fault}
    (hs : Machine.start s.program entry register.toNat = .ok (m, ev))
    (hw : (Log.empty (0 < s.level)).write s.level ev = .error f) :
    s.run entry register fuel =
      (report (.stopped f) (Log.empty (0 < s.level)), { s with machine := m }) := by
  rw [run, if_neg hr]
  simp only [hs, hw]

theorem run_of_write_ok (hr : ¬register < 0) {m : Machine} {ev : Event} {L : Log}
    (hs : Machine.start s.program entry register.toNat = .ok (m, ev))
    (hw : (Log.empty (0 < s.level)).write s.level ev = .ok L) :
    s.run entry register fuel =
      (report (s.loop fuel m L).1 (s.loop fuel m L).2.2,
        { s with machine := (s.loop fuel m L).2.1 }) := by
  rw [run, if_neg hr]
  simp only [hs, hw]

/-- The quiet run writes no trace line, and its first report is never refused. -/
theorem quiet_run_of_start_ok (hr : ¬register < 0) {m : Machine} {ev : Event}
    (hs : Machine.start s.program entry register.toNat = .ok (m, ev)) :
    s.quiet.run entry register fuel =
      (report (s.quiet.loop fuel m (Log.empty false)).1 (s.quiet.loop fuel m (Log.empty false)).2.2,
        { s.quiet with machine := (s.quiet.loop fuel m (Log.empty false)).2.1 }) :=
  run_of_write_ok hr hs (write_zero ev _)

/-- **A property of logs that the empty logs have and that lines and displays keep holds of what
a run reports**: its output and trace are those of a log with the property. -/
theorem run_log (s : Session) (entry : Bytes) (register : Int) (fuel : Nat) (P : Log → Prop)
    (h₀ : P (Log.empty false)) (h₁ : P (Log.empty (0 < s.level)))
    (hw : ∀ ev L L', L.write s.level ev = .ok L' → P L → P L')
    (hd : ∀ d L, P L → P (L.display s.debug d)) :
    ∃ L, P L ∧ (s.run entry register fuel).1.out = L.shown ∧
      (s.run entry register fuel).1.trace = L.traced := by
  by_cases hr : register < 0
  · exact ⟨_, h₀, by rw [run_of_neg hr]; rfl, by rw [run_of_neg hr]; rfl⟩
  cases hs : Machine.start s.program entry register.toNat with
  | error f =>
    exact ⟨_, h₁, by rw [run_of_start_error hr hs]; rfl, by rw [run_of_start_error hr hs]; rfl⟩
  | ok me =>
    obtain ⟨m, ev⟩ := me
    cases hw₀ : (Log.empty (0 < s.level)).write s.level ev with
    | error f =>
      exact ⟨_, h₁, by rw [run_of_write_error hr hs hw₀]; rfl,
        by rw [run_of_write_error hr hs hw₀]; rfl⟩
    | ok L =>
      exact ⟨_, loop_log P hw hd fuel m L (hw _ _ _ hw₀ h₁),
        by rw [run_of_write_ok hr hs hw₀]; rfl, by rw [run_of_write_ok hr hs hw₀]; rfl⟩

/-- A session that shows nothing has a run that shows nothing. -/
theorem run_out_of_debug (hd : s.debug = false) : (s.run entry register fuel).1.out = [] := by
  obtain ⟨L, hL, hout, -⟩ := run_log s entry register fuel (fun L => L.out = []) rfl rfl
    (fun _ _ _ hw hL => (Log.out_write hw).trans hL) (fun d L hL => by rw [hd]; exact hL)
  rw [hout, Log.shown, hL]
  rfl

/-- A session with no positive trace level has a run that opens no trace. -/
theorem run_trace_of_level (hl : s.level ≤ 0) : (s.run entry register fuel).1.trace = none := by
  have hempty : (Log.empty (0 < s.level)).trace = none := by
    simp [Log.empty, hl]
  obtain ⟨L, hL, -, htr⟩ := run_log s entry register fuel (fun L => L.trace = none) rfl hempty
    (fun _ _ _ hw hL => Log.trace_write hw hL) (fun d L hL => (Log.trace_display _ d L).trans hL)
  rw [htr, Log.traced, hL]
  rfl

/-- **A run with settings ends as the quiet run**, with the same machine, or is stopped by a trace
line that is due and shows a name that is not UTF-8. -/
theorem run_sim (s : Session) (entry : Bytes) (register : Int) (fuel : Nat) :
    ((s.run entry register fuel).1.outcome = (s.quiet.run entry register fuel).1.outcome ∧
      (s.run entry register fuel).2.machine = (s.quiet.run entry register fuel).2.machine) ∨
    ∃ (ev : Event) (i : Nat) (run : List UInt8),
      (s.run entry register fuel).1.outcome = .stopped (.unencodable i run) ∧ ev.level ≤ s.level ∧
      (∃ w ∈ ev.names, Text.isUtf8 w = false) ∧ Text.encode ev.render = .error (i, run) := by
  by_cases hr : register < 0
  · rw [run_of_neg hr, run_of_neg hr]
    exact .inl ⟨rfl, rfl⟩
  cases hs : Machine.start s.program entry register.toNat with
  | error f =>
    have hq : Machine.start s.quiet.program entry register.toNat = .error f := hs
    rw [run_of_start_error hr hs, run_of_start_error hr hq]
    exact .inl ⟨rfl, rfl⟩
  | ok me =>
    obtain ⟨m, ev⟩ := me
    rw [quiet_run_of_start_ok hr hs]
    cases hw : (Log.empty (0 < s.level)).write s.level ev with
    | error f =>
      -- the first report, naming the entry, is refused
      rw [run_of_write_error hr hs hw]
      obtain ⟨hl, ht, i, run, rfl, he⟩ := Log.write_eq_error hw
      exact .inr ⟨ev, i, run, rfl, hl, (Log.write_eq_error_iff ht hl).1 ⟨_, hw⟩, he⟩
    | ok L =>
      rw [run_of_write_ok hr hs hw]
      exact loop_sim s fuel m L (Log.empty false)

/-- **Where every token of the program is UTF-8, a run with settings is the quiet run**: it ends
the same way, with the same machine. Every machine of the run stays on the program's tokens,
so every line it writes shows only tokens. -/
theorem run_eq_quiet (hp : Program.load sources = .ok s.program)
    (hu : ∀ w, s.program.HasToken w → Text.isUtf8 w = true) (entry : Bytes) (register : Int)
    (fuel : Nat) :
    (s.run entry register fuel).1.outcome = (s.quiet.run entry register fuel).1.outcome ∧
      (s.run entry register fuel).2.machine = (s.quiet.run entry register fuel).2.machine := by
  by_cases hr : register < 0
  · rw [run_of_neg hr, run_of_neg hr]
    exact ⟨rfl, rfl⟩
  cases hs : Machine.start s.program entry register.toNat with
  | error f =>
    have hq : Machine.start s.quiet.program entry register.toNat = .error f := hs
    rw [run_of_start_error hr hs, run_of_start_error hr hq]
    exact ⟨rfl, rfl⟩
  | ok me =>
    obtain ⟨m, ev⟩ := me
    obtain ⟨hon, hnames⟩ := Machine.OnTokens.start hp hs
    -- the first report names the entry, a token, so it is written
    have hev : Log.Writable s.level ev :=
      .inr ((Event.isSome_chars?_render ev).2 fun w hw => hu w (hnames w hw))
    obtain ⟨L, hw⟩ := Log.write_of_writable hev (Log.empty (0 < s.level))
    rw [run_of_write_ok hr hs hw, quiet_run_of_start_ok hr hs]
    exact loop_eq_quiet (fun m (h : m.OnTokens s.program) => linesFit_of_onTokens hp hu h)
      (fun _ _ e h hst he => ((h.step hp hst).2 e he).1) fuel m L (Log.empty false) hon

/-- At trace level 0 no line is due, so a run is the quiet run, whatever it shows. -/
theorem run_eq_quiet_of_level_zero (hl : s.level = 0) (entry : Bytes) (register : Int)
    (fuel : Nat) :
    (s.run entry register fuel).1.outcome = (s.quiet.run entry register fuel).1.outcome ∧
      (s.run entry register fuel).2.machine = (s.quiet.run entry register fuel).2.machine := by
  rcases run_sim s entry register fuel with h | ⟨ev, -, -, -, hle, -⟩
  · exact h
  · -- every event is due from level 1 on
    have hev : (1 : Int) ≤ ev.level := by
      cases ev <;> simp [Event.level]
    omega

end Run

/-- **The display and trace settings change only the text.** The quiet run, with no display and
trace level 0, shows nothing and opens no trace; a session that does not show displays shows
nothing, and one with no positive trace level opens no trace. When every name token of the
sources is UTF-8, a run with any settings ends as the quiet run does, with the same machine,
for every fuel: it passes through the same machines. Otherwise it still does, or it is stopped
by the encoding fault of a trace line that is due and shows a name that is not UTF-8. -/
theorem run_settings {sources : List Source} (s : Session)
    (hp : Program.load sources = .ok s.program) (entry : Bytes) (register : Int) (fuel : Nat) :
    (s.quiet.run entry register fuel).1.out = [] ∧
    (s.quiet.run entry register fuel).1.trace = none ∧
    (s.debug = false → (s.run entry register fuel).1.out = []) ∧
    (s.level ≤ 0 → (s.run entry register fuel).1.trace = none) ∧
    ((∀ src ∈ sources, ∀ l ∈ Scan.lexemes src.bytes 0, isName l.word = true →
        Text.isUtf8 l.word = true) →
      (s.run entry register fuel).1.outcome = (s.quiet.run entry register fuel).1.outcome ∧
      (s.run entry register fuel).2.machine = (s.quiet.run entry register fuel).2.machine) ∧
    (((s.run entry register fuel).1.outcome = (s.quiet.run entry register fuel).1.outcome ∧
      (s.run entry register fuel).2.machine = (s.quiet.run entry register fuel).2.machine) ∨
    ∃ (ev : Event) (i : Nat) (run : List UInt8),
      (s.run entry register fuel).1.outcome = .stopped (.unencodable i run) ∧ ev.level ≤ s.level ∧
      (∃ w ∈ ev.names, Text.isUtf8 w = false) ∧ Text.encode ev.render = .error (i, run)) :=
  ⟨run_out_of_debug (quiet_debug s), run_trace_of_level (by simp), run_out_of_debug,
    run_trace_of_level,
    fun hu => run_eq_quiet hp (fun _ hw => Program.isUtf8_of_hasToken hp hu hw) entry register fuel,
    run_sim s entry register fuel⟩

/-- The run of `m` in `sampleSources`, showing displays and writing every trace line, ends as the
quiet run. -/
theorem run_settings_sample :
    Program.load Machine.sampleSources = .ok Machine.sampleProgram ∧
    (∀ src ∈ Machine.sampleSources, ∀ l ∈ Scan.lexemes src.bytes 0, isName l.word = true →
      Text.isUtf8 l.word = true) ∧
    ((⟨Machine.sampleProgram, true, 3, .initial⟩ : Session).run [0x6D] 0 10).1.outcome =
      ((⟨Machine.sampleProgram, true, 3, .initial⟩ : Session).quiet.run [0x6D] 0 10).1.outcome :=
  have hu : ∀ src ∈ Machine.sampleSources, ∀ l ∈ Scan.lexemes src.bytes 0,
      isName l.word = true → Text.isUtf8 l.word = true := by decide +kernel
  ⟨Machine.load_sampleSources, hu,
    ((run_settings ⟨Machine.sampleProgram, true, 3, .initial⟩ Machine.load_sampleSources
      [0x6D] 0 10).2.2.2.2.1 hu).1⟩

end Session

end Abacus
