import Abacus.Proofs.Samples
import Abacus.Proofs.Settings
import Abacus.Proofs.Shape

/-!
# Calls and returns in a trace are nested

A run with a positive trace level writes a line for each report at or below that level: its
`enter` line first, a `call` line for each call, a `return from` line each time the body of a
called function closes, and the `exit` line when the first function's body closes. When the run
finishes, its trace holds one `enter` line, first, and one `exit` line, last, with the run's
result; and its calls and returns are nested. Every return answers the latest unanswered call,
with its name and return address, right after the `}` that closes the called body: that `}` is
read in the mode the return reports, one group deeper than the call was made. Every call is
answered before the exit.

The lines are those of the events the steps of the run report: each step reports the token it
reads, then what the token does (`Machine.Trail`). Along a run, the unanswered calls are exactly
the frames above the first function's. A call pushes a frame and reports it; the close of a
called body pops the frame and reports the return; the close of the first body pops the last
frame and reports the exit. So the checker `Event.answer`, which keeps the unanswered calls as
the frames they push, follows the machine step by step.

## Main definitions

* `Machine.stepEvents`, `Machine.Trail` — the events of a step, and of the steps of a run.
* `Log.Lines` — the trace lines of a list of events at a trace level.
* `Event.answer` — returns answering calls, as a checker.
* `Machine.CallStep` — what a step does to the calls in progress.
* `Session.NestedTrace` — the trace of a finished run, nested.

## Main statements

* `Machine.step_callStep` — every step is one of the four kinds of `CallStep`.
* `Session.loop_trail`, `Session.run_trail` — a run that finishes follows a trail and traces the
  lines of its events.
* `Machine.Trail.answer` — along a trail from a machine a run reaches, returns answer calls.
* `Session.run_trace_nested` — the trace of every finished run is nested.
-/

namespace Abacus

/-! ### Events and their lines -/

namespace Event

/-- Whether an event is a token's line. -/
def isToken : Event → Bool
  | token .. => true
  | _ => false

/-- Whether an event starts or ends a run. -/
def isEnterOrExit : Event → Bool
  | enter .. | exit .. => true
  | _ => false

/-- Checks that the returns among the events `evs` answer calls, from the unanswered calls
`stack`, the latest first, each kept as the frame it pushes; gives the calls left unanswered. A
return answers the latest unanswered call, with its name and return address, right after the
`}` that closes the called body, read in the mode of the return one group deeper than the
call. -/
def answer : List Frame → List Event → Option (List Frame)
  | stack, [] => some stack
  | stack, call f d a :: evs => answer (⟨d, some a, f⟩ :: stack) evs
  | fr :: stack, token m d _ w :: leave f m' a :: evs =>
    if fr.name = f ∧ fr.returnTo = some a ∧ m' = m ∧ d = fr.depth + 1 ∧ w = closeWord then
      answer stack evs
    else none
  | _, leave .. :: _ => none
  | stack, _ :: evs => answer stack evs

section Answer

variable {stack : List Frame} {evs : List Event}

@[simp] theorem answer_nil : answer stack [] = some stack := by
  cases stack <;> rfl

theorem answer_call (f : Bytes) (d : Nat) (a : Address) :
    answer stack (call f d a :: evs) = answer (⟨d, some a, f⟩ :: stack) evs := by
  cases stack <;> rfl

/-- A token that no return follows changes nothing. -/
theorem answer_token (h : ∀ f m' a, evs.head? ≠ some (leave f m' a)) (m : Mode) (d n : Nat)
    (w : Bytes) : answer stack (token m d n w :: evs) = answer stack evs := by
  cases evs with
  | nil => cases stack <;> rfl
  | cons ev evs =>
    cases ev with
    | leave f m' a => exact absurd rfl (h f m' a)
    | _ => cases stack <;> rfl

/-- What comes after a step's events is the next step's: a token, never a return. -/
theorem not_leave_of_token (h : ∀ ev ∈ evs.head?, ev.isToken = true) :
    ∀ f m a, evs.head? ≠ some (leave f m a) := by
  intro f m a hhead
  have := h _ hhead
  cases this

/-- An event of level two changes nothing. -/
theorem answer_of_level_two {ev : Event} (hev : ev.level = 2) :
    answer stack (ev :: evs) = answer stack evs := by
  cases ev <;> simp [level] at hev <;> cases stack <;> rfl

/-- The `}` of a called body and the return after it answer the latest unanswered call. -/
theorem answer_leave {fr : Frame} {a : Address} (ha : fr.returnTo = some a) (m : Mode) (n : Nat) :
    answer (fr :: stack) (token m (fr.depth + 1) n closeWord :: leave fr.name m a :: evs) =
      answer stack evs := by
  simp [answer, ha]

end Answer

end Event

namespace Log

/-- `lines` are the trace lines of the events `evs` at trace level `level`: the text of each
event at or below the level, in order. -/
def Lines (level : Int) (evs : List Event) (lines : List String) : Prop :=
  List.Forall₂ (fun ev line => Text.encode ev.render = .ok line)
    (evs.filter fun ev => decide ((ev.level : Int) ≤ level)) lines

section Lines

variable {level : Int} {evs evs' : List Event} {lines lines' ls : List String} {ev : Event}
  {log log' : Log}

theorem Lines.nil : Lines level [] [] := List.Forall₂.nil

theorem Lines.append (h : Lines level evs lines) (h' : Lines level evs' lines') :
    Lines level (evs ++ evs') (lines ++ lines') := by
  unfold Lines
  rw [List.filter_append]
  exact List.rel_append h h'

/-- **A write to an open trace adds the event's line when it is due**, and nothing else. -/
theorem write_lines (h : log.write level ev = .ok log') (ht : log.trace = some ls) :
    ∃ new, Lines level [ev] new ∧ log'.trace = some (new.reverse ++ ls) := by
  unfold write at h
  by_cases hl : level < ev.level
  · rw [if_pos hl] at h
    cases h
    refine ⟨[], ?_, by rw [ht]; rfl⟩
    have hnot : ¬ (ev.level : Int) ≤ level := Int.not_le.2 hl
    simp [Lines, hnot]
  · rw [if_neg hl, ht] at h
    cases he : Text.encode ev.render with
    | error x =>
      rw [he] at h
      cases h
    | ok line =>
      rw [he] at h
      cases h
      have hdue : (ev.level : Int) ≤ level := Int.not_lt.1 hl
      exact ⟨[line], by simp [Lines, hdue, he], rfl⟩

end Lines

end Log

/-! ### The events of a run -/

namespace Machine

/-- The events a step from `m` reports: the token it reads, then what the token does. -/
def stepEvents (m : Machine) (st : Step) (e : Effect) : List Event :=
  .token m.mode m.depth m.register st.lexeme.word :: e.report.toList

/-- The events that the steps from `m` to `m'` report, none of them taken from a finished
machine. -/
inductive Trail (p : Program) : Machine → List Event → Machine → Prop
  /-- No step. -/
  | refl (m : Machine) : Trail p m [] m
  /-- A step, then the steps after it. -/
  | step {m m' : Machine} {st : Step} {e : Effect} {evs : List Event} :
      m.finished = false → m.step p = .ok st → st.effect = .ok e → Trail p e.final evs m' →
      Trail p m (stepEvents m st e ++ evs) m'

section Trail

variable {p : Program} {m m' : Machine} {evs : List Event}

/-- A finished machine takes no step. -/
theorem Trail.of_finished (h : Trail p m evs m') (hf : m.finished = true) : evs = [] ∧ m' = m := by
  cases h with
  | refl => exact ⟨rfl, rfl⟩
  | step hf' =>
    rw [hf] at hf'
    cases hf'

/-- The events of a trail start with a token. -/
theorem Trail.head_token (h : Trail p m evs m') : ∀ ev ∈ evs.head?, ev.isToken = true := by
  cases h with
  | refl => intro ev hev; cases hev
  | step =>
    intro ev hev
    simp only [stepEvents, List.cons_append, List.head?_cons, Option.mem_def,
      Option.some.injEq] at hev
    rw [← hev]
    rfl

end Trail

end Machine

namespace Session

variable {s : Session} {m m' : Machine} {log log' : Log} {ls : List String}

/-- A step of a run that goes on: the machine's step, with the lines of its events added to an
open trace. -/
theorem advance_lines (h : s.advance m log = .ok (m', log')) (ht : log.trace = some ls) :
    ∃ st e new, m.step s.program = .ok st ∧ st.effect = .ok e ∧ m' = e.final ∧
      Log.Lines s.level (Machine.stepEvents m st e) new ∧ log'.trace = some (new.reverse ++ ls) := by
  unfold advance at h
  cases hst : m.step s.program with
  | error f =>
    rw [hst] at h
    cases h
  | ok st =>
    rw [hst] at h
    dsimp only at h
    cases hw₁ : Log.write s.level (.token m.mode m.depth m.register st.lexeme.word) log with
    | error f =>
      rw [hw₁] at h
      cases h
    | ok log₁ =>
      rw [hw₁] at h
      dsimp only at h
      obtain ⟨new₁, hl₁, ht₁⟩ := Log.write_lines hw₁ ht
      cases he : st.effect with
      | error f =>
        rw [he] at h
        cases h
      | ok e =>
        rw [he] at h
        dsimp only at h
        have ht₂ : (log₁.display s.debug e.display).trace = some (new₁.reverse ++ ls) :=
          (Log.trace_display _ _ _).trans ht₁
        cases hr : e.report with
        | none =>
          rw [hr] at h
          cases h
          exact ⟨st, e, new₁, rfl, he, rfl, by simpa [Machine.stepEvents, hr] using hl₁, ht₂⟩
        | some ev =>
          rw [hr] at h
          dsimp only at h
          cases hw₂ : Log.write s.level ev (log₁.display s.debug e.display) with
          | error f =>
            rw [hw₂] at h
            cases h
          | ok log₂ =>
            rw [hw₂] at h
            cases h
            obtain ⟨new₂, hl₂, ht₃⟩ := Log.write_lines hw₂ ht₂
            refine ⟨st, e, new₁ ++ new₂, rfl, he, rfl, ?_, ?_⟩
            · simpa [Machine.stepEvents, hr] using hl₁.append hl₂
            · rw [ht₃, List.reverse_append, List.append_assoc]

/-- **A loop that finishes follows a trail of steps**, to a finished machine with the loop's
result, and writes the lines of the trail's events to an open trace. The induction is on the
fuel, each step by `advance_lines`. -/
theorem loop_trail : ∀ (fuel : Nat) (m : Machine) (log : Log) {ls : List String}
    {x : Option Nat}, log.trace = some ls → (s.loop fuel m log).1 = .done x →
    ∃ evs m' new, Machine.Trail s.program m evs m' ∧ m'.finished = true ∧ m'.result = x ∧
      Log.Lines s.level evs new ∧ (s.loop fuel m log).2.2.trace = some (new.reverse ++ ls)
  | fuel, m, log, ls, x, ht, hdone => by
    cases hf : m.finished
    · cases fuel with
      | zero =>
        rw [loop_zero hf] at hdone
        cases hdone
      | succ k =>
        rw [loop_succ hf] at hdone ⊢
        cases ha : s.advance m log with
        | error r =>
          rw [ha] at hdone
          cases hdone
        | ok r =>
          obtain ⟨m₁, log₁⟩ := r
          rw [ha] at hdone
          obtain ⟨st, e, new₁, hst, he, rfl, hl₁, ht₁⟩ := advance_lines ha ht
          obtain ⟨evs, m', new₂, htr, hfin, hres, hl₂, ht₂⟩ := loop_trail k e.final log₁ ht₁ hdone
          refine ⟨Machine.stepEvents m st e ++ evs, m', new₁ ++ new₂, .step hf hst he htr, hfin,
            hres, hl₁.append hl₂, ?_⟩
          rw [ht₂, List.reverse_append, List.append_assoc]
    · rw [loop_finished hf] at hdone ⊢
      cases hdone
      exact ⟨[], m, [], .refl m, hf, rfl, .nil, by simpa using ht⟩

/-- **A run that finishes, with its trace open, follows a trail** from the machine it starts
with, and its trace is the lines of its `enter` report and of the trail's events. -/
theorem run_trail (hlevel : 0 < s.level) {entry : Bytes} {r fuel : Nat} {x : Option Nat}
    (hdone : (s.run entry r fuel).1.outcome = .done x) :
    ∃ a evs m' lines, s.program.table.find? entry = some a ∧
      Machine.Trail s.program ⟨r, .success, 0, [], [⟨0, none, entry⟩], false, none, a⟩ evs m' ∧
      m'.finished = true ∧ m'.result = x ∧
      Log.Lines s.level (.enter entry a r :: evs) lines ∧
      (s.run entry r fuel).1.trace = some (String.join (lines.map (· ++ "\n"))) := by
  have hr : ¬ (r : Int) < 0 := Int.not_lt.2 (Int.natCast_nonneg r)
  have hempty : (Log.empty (0 < s.level)).trace = some [] := by
    simp [Log.empty, hlevel]
  cases ha : s.program.table.find? entry with
  | none =>
    have hs : Machine.start s.program entry (r : Int).toNat = .error (.entryNotFound entry) := by
      rw [Int.toNat_natCast, Machine.start, ha]
    rw [run_of_start_error hr hs] at hdone
    cases hdone
  | some a =>
    have hs : Machine.start s.program entry (r : Int).toNat =
        .ok (⟨r, .success, 0, [], [⟨0, none, entry⟩], false, none, a⟩, .enter entry a r) := by
      rw [Int.toNat_natCast]
      exact Machine.start_of_find? ha
    cases hw : (Log.empty (0 < s.level)).write s.level (.enter entry a r) with
    | error f =>
      rw [run_of_write_error hr hs hw] at hdone
      cases hdone
    | ok L =>
      obtain ⟨new₀, hl₀, ht₀⟩ := Log.write_lines hw hempty
      rw [run_of_write_ok hr hs hw] at hdone ⊢
      obtain ⟨evs, m', new, htr, hfin, hres, hl, ht⟩ := loop_trail fuel _ L ht₀ hdone
      refine ⟨a, evs, m', new₀ ++ new, rfl, htr, hfin, hres, hl₀.append hl, ?_⟩
      simp only [report, Log.traced, ht, List.append_nil, List.reverse_append,
        List.reverse_reverse, Option.map_some]

end Session

/-! ### What a step does to the calls in progress -/

namespace Machine

/-- What a step from `m` that reads the token `w` and has effect `e` does to the calls in
progress, with what it reports of them. -/
inductive CallStep (m : Machine) (w : Bytes) (e : Effect) : Prop
  /-- The calls stay as they are, and the step reports none of them. -/
  | stay : e.final.frames = m.frames → e.final.finished = m.finished →
      (∀ ev ∈ e.report, ev.level = 2) → CallStep m w e
  /-- A call of `w`, entered at the machine's depth, to come back to `a`. -/
  | call {a : Address} : e.report = some (.call w m.depth a) →
      e.final.frames = ⟨m.depth, some a, w⟩ :: m.frames → e.final.finished = m.finished →
      CallStep m w e
  /-- The `}` of a called body returns to where the call was made. -/
  | leave {fr : Frame} {outer : List Frame} {a : Address} {x : Nat} {saved : List Nat} :
      w = closeWord → m.frames = fr :: outer → m.snapshots = x :: saved →
      fr.returnTo = some a → m.depth - 1 = fr.depth → e.report = some (.leave fr.name m.mode a) →
      e.final.frames = outer → e.final.finished = m.finished → CallStep m w e
  /-- The `}` of the first body finishes the run with its result. -/
  | exit {fr : Frame} {outer : List Frame} :
      w = closeWord → m.frames = fr :: outer → fr.returnTo = none →
      e.report = some (.exit fr.name (if m.mode = .success then some m.register else none)) →
      e.final.finished = true →
      e.final.result = (if m.mode = .success then some m.register else none) → CallStep m w e

section CallStep

variable {p : Program} {src : Source} {m : Machine} {b : Address} {l : Lexeme} {e : Effect}

theorem CallStep.of_stay (h : e.final.frames = m.frames) (hf : e.final.finished = m.finished)
    (hr : e.report = none) : CallStep m l.word e :=
  .stay h hf (by rw [hr]; intro ev hev; cases hev)

/-- A `}` closes a group inside the body, or the body itself. -/
theorem close_callStep (hw : l.word = closeWord) (h : close src { m with pc := b } l = .ok e) :
    CallStep m l.word e := by
  cases hs : m.snapshots with
  | nil => simp [close, hs] at h
  | cons x saved =>
    cases hfr : m.frames with
    | nil => simp [close, hs, hfr] at h
    | cons fr outer =>
      simp only [close, hs, hfr] at h
      by_cases hd : m.depth - 1 = fr.depth
      · -- the body of the innermost call closes
        simp only [hd, ne_eq, not_true_eq_false, if_false] at h
        cases hret : fr.returnTo with
        | none =>
          simp only [hret] at h
          injection h with h
          subst h
          exact .exit hw hfr hret rfl rfl rfl
        | some a =>
          simp only [hret] at h
          injection h with h
          subst h
          exact .leave hw hfr hs hret hd rfl rfl rfl
      · -- a group inside the body closes
        simp only [hd, ne_eq, not_false_eq_true, if_true] at h
        injection h with h
        subst h
        exact .of_stay hfr.symm rfl rfl

/-- A token read in the success mode: a call, a `}`, or a token that leaves the calls. -/
theorem succeed_callStep (h : succeed p src { m with pc := b } l = .ok e) :
    CallStep m l.word e := by
  unfold succeed at h
  split at h
  · -- `+`
    injection h with h
    subst h
    exact .of_stay rfl rfl rfl
  · -- `-`, which on zero reports the failure
    split at h
    · injection h with h
      subst h
      refine .stay rfl rfl fun ev hev => ?_
      simp only [Option.mem_def, Option.map_eq_some_iff] at hev
      obtain ⟨f, -, rfl⟩ := hev
      rfl
    · injection h with h
      subst h
      exact .of_stay rfl rfl rfl
  · -- `{`
    injection h with h
    subst h
    exact .of_stay rfl rfl rfl
  · -- `}`
    rename_i hs
    exact close_callStep (Scan.ofWord?_eq_closeBrace.1 hs) h
  · -- `|`, which reports the skip
    split at h
    · cases h
    · injection h with h
      subst h
      exact .stay rfl rfl fun ev hev => by cases hev; rfl
  · -- `?`
    injection h with h
    subst h
    exact .of_stay rfl rfl rfl
  · -- `!`
    injection h with h
    subst h
    exact .of_stay rfl rfl rfl
  · -- `@`
    injection h with h
    subst h
    exact .of_stay rfl rfl rfl
  · -- a call
    split at h
    · cases h
    · injection h with h
      subst h
      exact .call rfl rfl rfl

/-- A token read in the failed mode: a `}`, or a token that leaves the calls. -/
theorem recover_callStep (h : recover p src { m with pc := b } l = .ok e) :
    CallStep m l.word e := by
  unfold recover at h
  split at h
  · -- `{`, passed over whole
    split at h
    · cases h
    · injection h with h
      subst h
      exact .of_stay rfl rfl rfl
  · -- `}`
    rename_i hs
    exact close_callStep (Scan.ofWord?_eq_closeBrace.1 hs) h
  · -- `|`, which reports the backtrack
    split at h
    · cases h
    · injection h with h
      subst h
      exact .stay rfl rfl fun ev hev => by cases hev; rfl
  · -- any other token is passed over
    injection h with h
    subst h
    exact .of_stay rfl rfl rfl

/-- **Every step is one of the four kinds of `CallStep`**: it leaves the calls in progress, makes
a call, returns from one, or finishes the run. -/
theorem step_callStep {st : Step} (h : m.step p = .ok st) (he : st.effect = .ok e) :
    CallStep m st.lexeme.word e := by
  unfold step at h
  split at h
  · split at h <;> cases h
  · cases h
    dsimp only at he
    split at he
    · exact succeed_callStep he
    · exact recover_callStep he

end CallStep

/-! ### Returns answer calls along a run -/

section Answer

variable {sources : List Source} {p : Program} {entry : Bytes} {r : Nat}

/-- The frames above the first function's are those of the calls left unanswered. -/
theorem eq_of_frames_return {stack outer : List Frame} {fr : Frame} {a : Address}
    (h : fr :: outer = stack ++ [⟨0, none, entry⟩]) (ha : fr.returnTo = some a) :
    ∃ stack', stack = fr :: stack' ∧ outer = stack' ++ [⟨0, none, entry⟩] := by
  cases stack with
  | nil =>
    obtain ⟨rfl, -⟩ := List.cons_eq_cons.1 h
    cases ha
  | cons c stack' =>
    obtain ⟨rfl, rfl⟩ := List.cons_eq_cons.1 h
    exact ⟨stack', rfl, rfl⟩

/-- A step that does not finish the run reports no `enter` and no `exit`. -/
theorem CallStep.report_not_end {m : Machine} {w : Bytes} {e : Effect} (h : CallStep m w e)
    (hfin : e.final.finished = false) : ∀ ev ∈ e.report, ev.isEnterOrExit = false := by
  cases h with
  | stay _ _ hlev =>
    intro ev hev
    have h2 := hlev ev hev
    cases ev <;> simp [Event.level] at h2 <;> rfl
  | call hrep =>
    intro ev hev
    rw [hrep] at hev
    cases hev
    rfl
  | leave _ _ _ _ _ hrep =>
    intro ev hev
    rw [hrep] at hev
    cases hev
    rfl
  | exit _ _ _ _ hfin' =>
    rw [hfin] at hfin'
    cases hfin'

section StepEvents

variable {m : Machine} {st : Step} {e : Effect} {stack : List Frame} {rest : List Event}

theorem stepEvents_not_end (hrep : ∀ ev ∈ e.report, ev.isEnterOrExit = false)
    (hrest : ∀ ev ∈ rest, ev.isEnterOrExit = false) :
    ∀ ev ∈ stepEvents m st e ++ rest, ev.isEnterOrExit = false := by
  intro ev hev
  simp only [stepEvents, List.cons_append, List.mem_cons, List.mem_append] at hev
  rcases hev with rfl | hev | hev
  · rfl
  · exact hrep ev (Option.mem_toList.1 hev)
  · exact hrest ev hev

/-- The events of a step that leaves the calls change no unanswered call. -/
theorem answer_stepEvents_of_stay (hlev : ∀ ev ∈ e.report, ev.level = 2)
    (hrest : ∀ ev ∈ rest.head?, ev.isToken = true) :
    Event.answer stack (stepEvents m st e ++ rest) = Event.answer stack rest := by
  cases hr : e.report with
  | none =>
    simp only [stepEvents, hr, Option.toList_none, List.cons_append, List.nil_append]
    exact Event.answer_token (Event.not_leave_of_token hrest) _ _ _ _
  | some ev =>
    have h2 := hlev ev (by rw [hr]; rfl)
    simp only [stepEvents, hr, Option.toList_some, List.cons_append, List.nil_append]
    rw [Event.answer_token (by intro f m a h; cases h; cases h2), Event.answer_of_level_two h2]

/-- The events of a call leave it unanswered. -/
theorem answer_stepEvents_of_call {f : Bytes} {d : Nat} {a : Address}
    (hrep : e.report = some (.call f d a)) :
    Event.answer stack (stepEvents m st e ++ rest) =
      Event.answer (⟨d, some a, f⟩ :: stack) rest := by
  simp only [stepEvents, hrep, Option.toList_some, List.cons_append, List.nil_append]
  rw [Event.answer_token (by intro f m a h; cases h), Event.answer_call]

/-- The events of the `}` of a called body answer the latest unanswered call. -/
theorem answer_stepEvents_of_leave {fr : Frame} {a : Address} (hret : fr.returnTo = some a)
    (hrep : e.report = some (.leave fr.name m.mode a)) (hdepth : m.depth = fr.depth + 1)
    (hw : st.lexeme.word = closeWord) :
    Event.answer (fr :: stack) (stepEvents m st e ++ rest) = Event.answer stack rest := by
  simp only [stepEvents, hrep, Option.toList_some, List.cons_append, hdepth, hw]
  exact Event.answer_leave hret _ _

end StepEvents

/-- **Along a trail from a machine a run reaches, returns answer calls.** When the frames above
the first function's are the unanswered calls `stack`, the events up to the finish have no
`enter` and no `exit`, and answer every call in `stack` and every call they make; the last
event is the `exit` of the first function with the finished machine's result. The induction is
on the trail, each step by `step_callStep`; a return finds its call on top of `stack`, one group
below the `}` by the shape of the machine. -/
theorem Trail.answer (hp : Program.load sources = .ok p) {m m' : Machine} {evs : List Event}
    (ht : Trail p m evs m') :
    ∀ {stack : List Frame}, Reaches p entry r m → m.finished = false →
      m.frames = stack ++ [⟨0, none, entry⟩] → m'.finished = true →
      ∃ mid, evs = mid ++ [.exit entry m'.result] ∧ (∀ ev ∈ mid, ev.isEnterOrExit = false) ∧
        Event.answer stack mid = some [] := by
  induction ht with
  | refl m =>
    intro stack _ hf _ hf'
    rw [hf] at hf'
    cases hf'
  | @step m m' st e evs hf hst he hrest ih =>
    intro stack hreach _ hframes hfin
    have hreach' : Reaches p entry r e.final := .step hreach hf hst he
    have hshape : Shaped p m := by
      cases settled_of_reaches hp hreach with
      | running _ hsh => exact hsh
      | done hf' =>
        rw [hf] at hf'
        cases hf'
    -- the token of the next step comes first in the events after this one
    have hnext : ∀ {mid : List Event}, evs = mid ++ [.exit entry m'.result] →
        ∀ ev ∈ mid.head?, ev.isToken = true := by
      intro mid hevs ev hev
      apply hrest.head_token ev
      cases mid with
      | nil => cases hev
      | cons ev' mid => simpa [hevs] using hev
    have hcs := step_callStep hst he
    have hnoend := hcs.report_not_end
    cases hcs with
    | stay hfr hfi hlev =>
      obtain ⟨mid, hevs, hno, hans⟩ := ih hreach' (hfi.trans hf) (hfr.trans hframes) hfin
      refine ⟨stepEvents m st e ++ mid, by rw [hevs, List.append_assoc],
        stepEvents_not_end (hnoend (hfi.trans hf)) hno, ?_⟩
      rw [answer_stepEvents_of_stay hlev (hnext hevs)]
      exact hans
    | @call a hrep hfr hfi =>
      have hframes' : e.final.frames =
          (⟨m.depth, some a, st.lexeme.word⟩ :: stack) ++ [⟨0, none, entry⟩] := by
        rw [hfr, hframes]
        rfl
      obtain ⟨mid, hevs, hno, hans⟩ := ih hreach' (hfi.trans hf) hframes' hfin
      refine ⟨stepEvents m st e ++ mid, by rw [hevs, List.append_assoc],
        stepEvents_not_end (hnoend (hfi.trans hf)) hno, ?_⟩
      rw [answer_stepEvents_of_call hrep]
      exact hans
    | @leave fr outer a x saved hw hfr hsn hret hd hrep hfr' hfi =>
      obtain ⟨stack', rfl, houter⟩ := eq_of_frames_return (hfr.symm.trans hframes) hret
      obtain ⟨mid, hevs, hno, hans⟩ := ih hreach' (hfi.trans hf) (hfr'.trans houter) hfin
      -- the `}` is read one group deeper than the call was made
      have hdepth : m.depth = fr.depth + 1 := by
        have hlen := hshape.snapshots_length
        rw [hsn, List.length_cons] at hlen
        omega
      refine ⟨stepEvents m st e ++ mid, by rw [hevs, List.append_assoc],
        stepEvents_not_end (hnoend (hfi.trans hf)) hno, ?_⟩
      rw [answer_stepEvents_of_leave hret hrep hdepth hw]
      exact hans
    | @exit fr outer hw hfr hret hrep hfi hres =>
      obtain ⟨rfl, rfl⟩ := hrest.of_finished hfi
      -- only the first function's frame has nowhere to return to, so no call is unanswered
      have houter : outer = [] := (hfr ▸ hshape.calls).eq_singleton hret
      subst houter
      have hbottom : stack = [] ∧ fr = ⟨0, none, entry⟩ := by
        cases stack with
        | nil => exact ⟨rfl, (List.cons_eq_cons.1 (hfr.symm.trans hframes)).1⟩
        | cons c cs =>
          have h := (List.cons_eq_cons.1 (hfr.symm.trans hframes)).2
          simp at h
      obtain ⟨rfl, rfl⟩ := hbottom
      refine ⟨[.token m.mode m.depth m.register st.lexeme.word], ?_, ?_, rfl⟩
      · simp [stepEvents, hrep, hres]
      · intro ev hev
        rw [List.mem_singleton.1 hev]
        rfl

end Answer

end Machine

namespace Session

/-- The trace of a finished run of `entry` from `r` with result `x` is nested: its events are
the `enter` of `entry`, then the events of the run's steps, with no other `enter` and no `exit`,
whose returns answer every call they make, and last the `exit` of `entry` with `x`; the trace
is their lines at the session's level. -/
def NestedTrace (s : Session) (entry : Bytes) (r fuel : Nat) (x : Option Nat) : Prop :=
  ∃ a evs m' lines, s.program.table.find? entry = some a ∧
    Machine.Trail s.program ⟨r, .success, 0, [], [⟨0, none, entry⟩], false, none, a⟩
      (evs ++ [.exit entry x]) m' ∧
    Log.Lines s.level (.enter entry a r :: evs ++ [.exit entry x]) lines ∧
    (s.run entry r fuel).1.trace = some (String.join (lines.map (· ++ "\n"))) ∧
    (∀ ev ∈ evs, ev.isEnterOrExit = false) ∧ Event.answer [] evs = some []

/-- **The trace of a finished run is nested.** Take a session on sources that load, with a
positive trace level, and a run of `entry` from `r` that finishes with result `x`. Its trace is
the lines of its events: the `enter` of `entry` first and the `exit` of `entry` with `x` last,
and none between; between them every return answers the latest unanswered call, with its name
and return address, right after the `}` of the called body read in the return's mode one group
deeper than the call, and every call is answered. -/
theorem run_trace_nested {sources : List Source} (s : Session)
    (hp : Program.load sources = .ok s.program) (hlevel : 1 ≤ s.level) (entry : Bytes)
    (r fuel : Nat) {x : Option Nat} (hdone : (s.run entry r fuel).1.outcome = .done x) :
    s.NestedTrace entry r fuel x := by
  obtain ⟨a, evs, m', lines, ha, htr, hfin, hres, hl, ht⟩ := run_trail (by omega) hdone
  -- the run starts at the first function's frame, with no call unanswered
  have hstart : Machine.Reaches s.program entry r
      ⟨r, .success, 0, [], [⟨0, none, entry⟩], false, none, a⟩ := .start (Machine.start_of_find? ha)
  obtain ⟨mid, rfl, hno, hans⟩ := htr.answer hp hstart rfl (List.nil_append _).symm hfin
  rw [hres] at htr hl
  exact ⟨a, mid, m', lines, ha, htr, by simpa using hl, ht, hno, hans⟩

open Samples in
/-- `main` of `callOnce`, run from zero at trace level one, finishes with one, and its trace is
nested. -/
theorem run_trace_nested_callOnce :
    Program.load [callOnce] = .ok callOnceProgram ∧ (1 : Int) ≤ 1 ∧
      ((⟨callOnceProgram, false, 1, .initial⟩ : Session).run (word "main") 0 10).1.outcome =
        .done (some 1) ∧
      (⟨callOnceProgram, false, 1, .initial⟩ : Session).NestedTrace (word "main") 0 10
        (some 1) :=
  have hdone : ((⟨callOnceProgram, false, 1, .initial⟩ : Session).run (word "main") 0
      10).1.outcome = .done (some 1) := by
    decide +kernel
  ⟨load_callOnce, Int.le_refl 1, hdone,
    run_trace_nested ⟨callOnceProgram, false, 1, .initial⟩ load_callOnce (Int.le_refl 1) _ 0 10
      hdone⟩

end Session

end Abacus
