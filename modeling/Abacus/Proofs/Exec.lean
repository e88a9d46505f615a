import Abacus.Proofs.Body
import Abacus.Machine.Session

/-!
# Runs of steps, and the session loop

`Machine.Exec` is a run of steps that meet no fault, each from a machine that has not finished,
with the texts the steps show. On a session that shows displays and traces nothing (the session
`Session.load` gives, with `debug` set), the loop of a run is such a run followed by its end: the
machine finishes, a step meets a fault, or the fuel runs out.

The second half gives, token by token, the step a machine takes at a token it reads.

## Main definitions

* `Machine.Exec` — `k` steps with no fault, and the texts they show.

## Main statements

* `Machine.Exec.trans`, `Machine.Exec.cut` — runs compose and can be cut short.
* `Session.loop_exec`, `Session.loop_finished`, `Session.loop_fault`, `Session.loop_zero` — the
  loop of a quiet session along a run.
* `Machine.exec_plus` … `Machine.exec_close_return` — the step at each kind of token.
-/

namespace Abacus

namespace Machine

/-- `k` steps from `m` to `m'` that meet no fault, each from a machine that has not finished,
with the texts the steps show, in order. -/
inductive Exec (p : Program) : Machine → Nat → List Text → Machine → Prop
  | refl (m : Machine) : Exec p m 0 [] m
  | step {m : Machine} {st : Step} {e : Effect} {k : Nat} {texts : List Text} {m' : Machine} :
      m.finished = false → m.step p = .ok st → st.effect = .ok e → Exec p e.final k texts m' →
      Exec p m (k + 1) (e.display.toList.map Display.render ++ texts) m'

namespace Exec

variable {p : Program} {m m₁ m₂ : Machine} {k k₁ k₂ : Nat} {t₁ t₂ : List Text}

theorem one {l : Lexeme} {e : Effect} (hf : m.finished = false)
    (hs : m.step p = .ok ⟨l, .ok e⟩) :
    Exec p m 1 (e.display.toList.map Display.render) e.final := by
  have h := Exec.step hf hs rfl (.refl e.final)
  rwa [List.append_nil] at h

theorem trans (h₁ : Exec p m k₁ t₁ m₁) (h₂ : Exec p m₁ k₂ t₂ m₂) :
    Exec p m (k₁ + k₂) (t₁ ++ t₂) m₂ := by
  induction h₁ with
  | refl => simpa using h₂
  | step hf hs he _ ih =>
    rw [Nat.add_right_comm, List.append_assoc]
    exact .step hf hs he (ih h₂)

/-- A run stops short of its end at a machine that has not finished: every machine that takes
a step has not. -/
theorem cut_lt (h : Exec p m k t₁ m₁) : ∀ j < k, ∃ t m', Exec p m j t m' ∧ m'.finished = false := by
  induction h with
  | refl m => exact fun j hj => absurd hj (Nat.not_lt_zero j)
  | step hm hs he _ ih =>
    intro j hj
    cases j with
    | zero => exact ⟨[], _, .refl _, hm⟩
    | succ j =>
      obtain ⟨t, m', hrun, hf'⟩ := ih j (Nat.lt_of_succ_lt_succ hj)
      exact ⟨_, m', .step hm hs he hrun, hf'⟩

/-- **A run that ends unfinished can be cut short**: it takes any smaller number of steps, to a
machine that has not finished. -/
theorem cut (h : Exec p m k t₁ m₁) (hf : m₁.finished = false) :
    ∀ j ≤ k, ∃ t m', Exec p m j t m' ∧ m'.finished = false := by
  intro j hj
  rcases Nat.lt_or_eq_of_le hj with hlt | rfl
  · exact h.cut_lt j hlt
  · exact ⟨t₁, m₁, h, hf⟩

end Exec

/-! ### The step at each kind of token -/

section Tokens

variable {p : Program} {m : Machine} {l : Lexeme} {ls : List Lexeme}

theorem exec_plus (hf : m.finished = false) (hv : p.view m.pc = l :: ls)
    (hm : m.mode = .success) (hw : Symbol.ofWord? l.word = some .plus) :
    Exec p m 1 [] { m with pc := ⟨m.pc.source, l.stop⟩, register := m.register + 1 } := by
  have hs : m.step p = .ok ⟨l, .ok
      { machine := { m with pc := ⟨m.pc.source, l.stop⟩, register := m.register + 1 } }⟩ := by
    rw [step_of_view_success hv hm, succeed, hw]
  exact Exec.one hf hs

theorem exec_minus_zero (hf : m.finished = false) (hv : p.view m.pc = l :: ls)
    (hm : m.mode = .success) (hw : Symbol.ofWord? l.word = some .minus) (hr : m.register = 0) :
    Exec p m 1 [] { m with pc := ⟨m.pc.source, l.stop⟩, mode := .failed } := by
  have hs : m.step p = .ok ⟨l, .ok
      { machine := { m with pc := ⟨m.pc.source, l.stop⟩, mode := .failed },
        report := (m.current?).map fun f => .fail f m.depth }⟩ := by
    rw [step_of_view_success hv hm, succeed, hw]
    simp only [hr]
    rfl
  exact Exec.one hf hs

theorem exec_minus_succ {n : Nat} (hf : m.finished = false) (hv : p.view m.pc = l :: ls)
    (hm : m.mode = .success) (hw : Symbol.ofWord? l.word = some .minus) (hr : m.register = n + 1) :
    Exec p m 1 [] { m with pc := ⟨m.pc.source, l.stop⟩, register := n } := by
  have hs : m.step p = .ok ⟨l, .ok
      { machine := { m with pc := ⟨m.pc.source, l.stop⟩, register := n } }⟩ := by
    rw [step_of_view_success hv hm, succeed, hw]
    simp only [hr]
  exact Exec.one hf hs

theorem exec_query (hf : m.finished = false) (hv : p.view m.pc = l :: ls)
    (hm : m.mode = .success) (hw : Symbol.ofWord? l.word = some .query) :
    Exec p m 1 [] { m with pc := ⟨m.pc.source, l.stop⟩ } := by
  have hs : m.step p = .ok ⟨l, .ok { machine := { m with pc := ⟨m.pc.source, l.stop⟩ } }⟩ := by
    rw [step_of_view_success hv hm, succeed, hw]
  exact Exec.one hf hs

theorem exec_bang (hf : m.finished = false) (hv : p.view m.pc = l :: ls)
    (hm : m.mode = .success) (hw : Symbol.ofWord? l.word = some .bang) :
    Exec p m 1 [(Display.register m.register).render] { m with pc := ⟨m.pc.source, l.stop⟩ } := by
  have hs : m.step p = .ok ⟨l, .ok
      { machine := { m with pc := ⟨m.pc.source, l.stop⟩ },
        display := some (.register m.register) }⟩ := by
    rw [step_of_view_success hv hm, succeed, hw]
  exact Exec.one hf hs

theorem exec_atSign (hf : m.finished = false) (hv : p.view m.pc = l :: ls)
    (hm : m.mode = .success) (hw : Symbol.ofWord? l.word = some .atSign) :
    Exec p m 1 [(Display.calls (m.frames.map (·.name))).render]
      { m with pc := ⟨m.pc.source, l.stop⟩ } := by
  have hs : m.step p = .ok ⟨l, .ok
      { machine := { m with pc := ⟨m.pc.source, l.stop⟩ },
        display := some (.calls (m.frames.map (·.name))) }⟩ := by
    rw [step_of_view_success hv hm, succeed, hw]
  exact Exec.one hf hs

/-- A token read as a call, in the success mode: the effect looks the function up. -/
theorem succeed_call {src : Source} {m' : Machine}
    (hw : ∀ s, Symbol.ofWord? l.word = some s → s = .hash) :
    succeed p src m' l = match p.table.find? l.word with
      | none => .error (.undefinedCall l.word l.stop src.name)
      | some a =>
        .ok { machine := { m' with frames := ⟨m'.depth, some m'.pc, l.word⟩ :: m'.frames },
              report := some (.call l.word m'.depth m'.pc), moveTo := some a } := by
  unfold succeed
  cases hs : Symbol.ofWord? l.word with
  | none => rfl
  | some s =>
    obtain rfl := hw s hs
    rfl

/-- A call of a defined function pushes a frame that returns to the token after the call, and
goes on at the function's address. -/
theorem exec_call {a : Address} (hf : m.finished = false) (hv : p.view m.pc = l :: ls)
    (hm : m.mode = .success) (hw : ∀ s, Symbol.ofWord? l.word = some s → s = .hash)
    (ha : p.table.find? l.word = some a) :
    Exec p m 1 []
      { m with pc := a, frames := ⟨m.depth, some ⟨m.pc.source, l.stop⟩, l.word⟩ :: m.frames } := by
  have hs : m.step p = .ok ⟨l, .ok
      { machine :=
          { m with
            pc := ⟨m.pc.source, l.stop⟩
            frames := ⟨m.depth, some ⟨m.pc.source, l.stop⟩, l.word⟩ :: m.frames }
        report := some (.call l.word m.depth ⟨m.pc.source, l.stop⟩)
        moveTo := some a }⟩ := by
    rw [step_of_view_success hv hm, succeed_call hw, ha]
  exact Exec.one hf hs

/-- A call of a function that is not defined meets its fault. -/
theorem step_call_undefined (hv : p.view m.pc = l :: ls) (hm : m.mode = .success)
    (hw : ∀ s, Symbol.ofWord? l.word = some s → s = .hash) (ha : p.table.find? l.word = none) :
    m.step p = .ok ⟨l, .error (.undefinedCall l.word l.stop (p.source m.pc.source).name)⟩ := by
  rw [step_of_view_success hv hm, succeed_call hw, ha]

theorem exec_open (hf : m.finished = false) (hv : p.view m.pc = l :: ls)
    (hm : m.mode = .success) (hw : l.word = openWord) :
    Exec p m 1 []
      { m with
        pc := ⟨m.pc.source, l.stop⟩
        depth := m.depth + 1
        snapshots := m.register :: m.snapshots } := by
  have hs : m.step p = .ok ⟨l, .ok
      { machine :=
          { m with
            pc := ⟨m.pc.source, l.stop⟩
            depth := m.depth + 1
            snapshots := m.register :: m.snapshots } }⟩ := by
    rw [step_of_view_success hv hm, succeed, Scan.ofWord?_eq_openBrace.2 hw]
  exact Exec.one hf hs

/-- A `|` in the success mode lands on the `}` of its group. -/
theorem exec_skip {c : Lexeme} (hf : m.finished = false) (hv : p.view m.pc = l :: ls)
    (hm : m.mode = .success) (hw : l.word = barWord)
    (hc : p.close? ⟨m.pc.source, l.stop⟩ = some c) :
    Exec p m 1 [] { m with pc := ⟨m.pc.source, c.start⟩ } := by
  have hs : m.step p = .ok ⟨l, .ok
      { machine := { m with pc := ⟨m.pc.source, c.start⟩ },
        report := some (.skip m.pc.source c.start) }⟩ := by
    rw [step_of_view_success hv hm, succeed, Symbol.ofWord?_eq_some_iff.2 hw]
    simp only [hc]
  exact Exec.one hf hs

/-- A `{` in the failed mode passes over its whole group. -/
theorem exec_skipGroup {c : Lexeme} (hf : m.finished = false) (hv : p.view m.pc = l :: ls)
    (hm : m.mode = .failed) (hw : l.word = openWord)
    (hc : p.close? ⟨m.pc.source, l.stop⟩ = some c) :
    Exec p m 1 [] { m with pc := ⟨m.pc.source, c.stop⟩ } := by
  have hs : m.step p = .ok ⟨l, .ok { machine := { m with pc := ⟨m.pc.source, c.stop⟩ } }⟩ := by
    rw [step_of_view_failed hv hm, recover, Scan.ofWord?_eq_openBrace.2 hw]
    simp only [hc]
  exact Exec.one hf hs

/-- A `|` in the failed mode goes back to the register the group was entered with. -/
theorem exec_backtrack {r : Nat} {rs : List Nat} (hf : m.finished = false)
    (hv : p.view m.pc = l :: ls) (hm : m.mode = .failed) (hw : l.word = barWord)
    (hs : m.snapshots = r :: rs) :
    Exec p m 1 []
      { m with pc := ⟨m.pc.source, l.stop⟩, register := r, mode := .success } := by
  have hst : m.step p = .ok ⟨l, .ok
      { machine := { m with pc := ⟨m.pc.source, l.stop⟩, register := r, mode := .success },
        report := some (.backtrack m.depth r) }⟩ := by
    rw [step_of_view_failed hv hm, recover, Symbol.ofWord?_eq_some_iff.2 hw]
    simp only [hs]
  exact Exec.one hf hst

/-- Any other token in the failed mode is passed over. -/
theorem exec_pass (hf : m.finished = false) (hv : p.view m.pc = l :: ls) (hm : m.mode = .failed)
    (ho : l.word ≠ openWord) (hc : l.word ≠ closeWord) (hb : l.word ≠ barWord) :
    Exec p m 1 [] { m with pc := ⟨m.pc.source, l.stop⟩ } := by
  have hs : m.step p = .ok ⟨l, .ok { machine := { m with pc := ⟨m.pc.source, l.stop⟩ } }⟩ := by
    rw [step_of_view_failed hv hm, recover]
    have ho' : Symbol.ofWord? l.word ≠ some .openBrace := mt Scan.ofWord?_eq_openBrace.1 ho
    have hc' : Symbol.ofWord? l.word ≠ some .closeBrace := mt Scan.ofWord?_eq_closeBrace.1 hc
    have hb' : Symbol.ofWord? l.word ≠ some .bar := mt Symbol.ofWord?_eq_some_iff.1 hb
    cases hsym : Symbol.ofWord? l.word with
    | none => rfl
    | some s => cases s <;> simp_all
  exact Exec.one hf hs

/-- A `}` is read alike in both modes. -/
theorem step_of_view_close (hv : p.view m.pc = l :: ls) (hw : l.word = closeWord) :
    m.step p = .ok ⟨l, close (p.source m.pc.source) { m with pc := ⟨m.pc.source, l.stop⟩ } l⟩ := by
  obtain hm | hm : m.mode = .success ∨ m.mode = .failed := by
    cases m.mode
    · exact .inl rfl
    · exact .inr rfl
  · rw [step_of_view_success hv hm, succeed, Scan.ofWord?_eq_closeBrace.2 hw]
  · rw [step_of_view_failed hv hm, recover, Scan.ofWord?_eq_closeBrace.2 hw]

section Close

variable {r : Nat} {saved : List Nat} {f : Frame} {outer : List Frame}

/-- A `}` that closes a group inside a body drops its saved register. -/
theorem exec_close_inner (hf : m.finished = false) (hv : p.view m.pc = l :: ls)
    (hw : l.word = closeWord) (hs : m.snapshots = r :: saved) (hfs : m.frames = f :: outer)
    (hd : m.depth - 1 ≠ f.depth) :
    Exec p m 1 []
      { m with pc := ⟨m.pc.source, l.stop⟩, depth := m.depth - 1, snapshots := saved } := by
  have hst : m.step p = .ok ⟨l, .ok
      { machine :=
          { m with pc := ⟨m.pc.source, l.stop⟩, depth := m.depth - 1, snapshots := saved } }⟩ := by
    rw [step_of_view_close hv hw, close]
    simp only [hs, hfs]
    rw [if_pos hd]
  exact Exec.one hf hst

/-- A `}` that closes the body of a call returns to where the call was made. -/
theorem exec_close_return {a : Address} (hf : m.finished = false) (hv : p.view m.pc = l :: ls)
    (hw : l.word = closeWord) (hs : m.snapshots = r :: saved) (hfs : m.frames = f :: outer)
    (hd : m.depth - 1 = f.depth) (hr : f.returnTo = some a) :
    Exec p m 1 []
      { m with pc := a, depth := m.depth - 1, snapshots := saved, frames := outer } := by
  have hst : m.step p = .ok ⟨l, .ok
      { machine :=
          { m with
            pc := ⟨m.pc.source, l.stop⟩
            depth := m.depth - 1
            snapshots := saved
            frames := outer }
        report := some (.leave f.name m.mode a)
        moveTo := some a }⟩ := by
    rw [step_of_view_close hv hw, close]
    simp only [hs, hfs]
    rw [if_neg (not_not.2 hd), hr]
  exact Exec.one hf hst

/-- A `}` that closes the body of the first function finishes the run: with the register in the
success mode, with no value in the failed mode. -/
theorem exec_close_finish (hf : m.finished = false) (hv : p.view m.pc = l :: ls)
    (hw : l.word = closeWord) (hs : m.snapshots = r :: saved) (hfs : m.frames = f :: outer)
    (hd : m.depth - 1 = f.depth) (hr : f.returnTo = none) :
    Exec p m 1 []
      { m with
        pc := ⟨m.pc.source, l.stop⟩
        depth := m.depth - 1
        snapshots := saved
        frames := outer
        finished := true
        result := if m.mode = .success then some m.register else none } := by
  have hst : m.step p = .ok ⟨l, .ok
      { machine :=
          { m with
            pc := ⟨m.pc.source, l.stop⟩
            depth := m.depth - 1
            snapshots := saved
            frames := outer
            finished := true
            result := if m.mode = .success then some m.register else none }
        report := some (.exit f.name (if m.mode = .success then some m.register else none)) }⟩ := by
    rw [step_of_view_close hv hw, close]
    simp only [hs, hfs]
    rw [if_neg (not_not.2 hd), hr]
  exact Exec.one hf hst

end Close

end Tokens

end Machine

/-! ### The loop of a quiet session -/

namespace Session

open Machine

/-- Every event is at level one or more: a session at trace level 0 writes none. -/
theorem write_zero (e : Event) (log : Log) : log.write 0 e = .ok log := by
  have hpos : (0 : Int) < e.level := by
    cases e <;> simp [Event.level]
  unfold Log.write
  rw [if_pos hpos]

theorem display_true (d : Option Display) (log : Log) :
    log.display true d = ⟨(d.toList.map Display.render).reverse ++ log.out, log.trace⟩ := by
  cases d <;> rfl

variable {s : Session} {m m' : Machine} {k : Nat} {texts : List Text}

/-- A step with no fault, in a session that shows displays and traces nothing: the log takes the
step's display. -/
theorem advance_ok (hl : s.level = 0) (hd : s.debug = true) {st : Step} {e : Effect}
    (hs : m.step s.program = .ok st) (he : st.effect = .ok e) (log : Log) :
    s.advance m log = .ok (e.final, log.display true e.display) := by
  unfold advance
  simp only [hs, hl, write_zero, he, hd]
  cases e.report <;> simp

theorem advance_fault (hl : s.level = 0) {st : Step} {f : Fault}
    (hs : m.step s.program = .ok st) (he : st.effect = .error f) (log : Log) :
    s.advance m log = .error (f, m, log) := by
  unfold advance
  simp only [hs, hl, write_zero, he]

/-- **The loop follows a run**, the displays going to the log. -/
theorem loop_exec (hl : s.level = 0) (hd : s.debug = true)
    (h : Exec s.program m k texts m') (j : Nat) (log : Log) :
    s.loop (k + j) m log = s.loop j m' ⟨texts.reverse ++ log.out, log.trace⟩ := by
  induction h generalizing log with
  | refl m => simp
  | @step m st e k texts m' hf hs he _ ih =>
    rw [Nat.add_right_comm, loop, if_neg (by simp [hf]), advance_ok hl hd hs he]
    simp only
    rw [ih, display_true]
    simp

theorem loop_finished (h : m.finished = true) (j : Nat) (log : Log) :
    s.loop j m log = (.done m.result, m, log) := by
  unfold loop
  rw [if_pos h]

theorem loop_zero (h : m.finished = false) (log : Log) : s.loop 0 m log = (.outOfFuel, m, log) := by
  rw [loop, if_neg (by simp [h])]

theorem loop_fault (hl : s.level = 0) (h : m.finished = false) {st : Step} {f : Fault}
    (hs : m.step s.program = .ok st) (he : st.effect = .error f) (j : Nat) (log : Log) :
    s.loop (j + 1) m log = (.stopped f, m, log) := by
  rw [loop, if_neg (by simp [h]), advance_fault hl hs he]

end Session

end Abacus
