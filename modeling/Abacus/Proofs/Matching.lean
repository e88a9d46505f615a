import Abacus.Proofs.Samples
import Mathlib.Logic.Relation

/-!
# Groups close where their text closes them

The machine matches braces as it runs: a `{` read in the success mode saves the register and
adds one to the depth, a `}` drops the innermost saved register, and in between the run may
call functions elsewhere in the program, come back, pass over the rest of an alternative after
a `|`, or pass over whole groups in the failed mode. The scanner matches braces without running
anything: from just after a `{` it counts to the `}` that closes the group. This module shows
that the two agree. The step that drops the register saved at a `{` reads the `}` that the
scanner finds from just after that `{`. While that register is the innermost saved, a `|` read
in the failed mode stands at the top level of the same group, before its `}`, and puts that
register back.

The proof keeps a record of the group, `Machine.Entered`, beside the run. Where the run stands
in the group's text carries the argument (`Machine.Entered.ReadTo`): what it has read of that
text since the `{` leaves open exactly the groups entered since (`Scan.Opens`), so with no
group entered since it is a balanced stretch, after which the scanner's `}` comes next. Calls
made inside the group leave its text, and the first of them returns into it
(`Machine.Entered.Resumes`). `Machine.Move` says once what a step does to the position, the
saved registers and the calls, and each kind of move keeps the record (`Entered.Holds.step`).

## Main definitions

* `Scan.Opens` — tokens that leave `n` groups open.
* `Machine.next?`, `Machine.Next`, `Machine.Keeps` — one step of a run, and the steps during
  which a saved register stays saved.
* `Machine.Move` — what a step does to the position, the saved registers and the calls.
* `Machine.Entered`, `Machine.Entered.Holds` — a group entered by a run, still open.
* `Machine.GroupMatch` — what a run shows of a group while its register stays saved.

## Main statements

* `Machine.step_move` — every step that meets no fault is a `Move`.
* `Machine.Entered.Holds.keeps` — a group stays open along the steps that keep its register.
* `Machine.Entered.Holds.pop`, `Machine.Entered.Holds.backtrack` — the step that drops the
  group's register, and a `|` read in the failed mode while that register is on top.
* `Machine.group_matches_scan` — the groups a run enters close where the scanner closes them.
-/

namespace Abacus

namespace Scan

/-- `Opens n ws`: the tokens `ws` leave `n` groups open: a balanced stretch, then a `{` whose
group they do not close, `n` times over, each group inside the one before. -/
def Opens : Nat → List Bytes → Prop
  | 0, ws => Balanced ws
  | n + 1, ws => ∃ u v, ws = u ++ openWord :: v ∧ Balanced u ∧ Opens n v

namespace Opens

variable {n : Nat} {ws : List Bytes}

theorem append_balanced {u : List Bytes} (h : Opens n ws) (hu : Balanced u) :
    Opens n (ws ++ u) := by
  induction n generalizing ws with
  | zero => exact Balanced.append h hu
  | succ n ih =>
    obtain ⟨a, v, rfl, ha, hv⟩ := h
    exact ⟨a, v ++ u, by simp, ha, ih hv⟩

theorem append_word {w : Bytes} (h : Opens n ws) (ho : w ≠ openWord) (hc : w ≠ closeWord) :
    Opens n (ws ++ [w]) :=
  h.append_balanced (.word ho hc .nil)

/-- A `{` opens one more group, inside the others. -/
theorem append_open (h : Opens n ws) : Opens (n + 1) (ws ++ [openWord]) := by
  induction n generalizing ws with
  | zero => exact ⟨ws, [], rfl, h, .nil⟩
  | succ n ih =>
    obtain ⟨a, v, rfl, ha, hv⟩ := h
    exact ⟨a, v ++ [openWord], by simp, ha, ih hv⟩

/-- A `}` closes the innermost of the open groups. -/
theorem append_close (h : Opens (n + 1) ws) : Opens n (ws ++ [closeWord]) := by
  induction n generalizing ws with
  | zero =>
    obtain ⟨a, v, rfl, ha, hv⟩ := h
    have hg : Balanced (openWord :: v ++ closeWord :: []) := .group hv .nil
    show Balanced (a ++ openWord :: v ++ [closeWord])
    rw [List.append_assoc, List.cons_append]
    exact ha.append hg
  | succ n ih =>
    obtain ⟨a, v, rfl, ha, hv⟩ := h
    exact ⟨a, v ++ [closeWord], by simp, ha, ih hv⟩

end Opens

end Scan

namespace Program

section View

variable {p : Program} {a : Address} {l c : Lexeme} {ls : List Lexeme}

theorem view_eq_singleton_append (hv : p.view a = l :: ls) :
    p.view a = [l] ++ p.view ⟨a.source, l.stop⟩ := by
  rw [view_next hv, hv]
  rfl

/-- The close found from just after a token, with the balanced stretch before it. -/
theorem exists_of_close? (hv : p.view a = l :: ls) (hcl : p.close? ⟨a.source, l.stop⟩ = some c) :
    ∃ inner rest, ls = inner ++ c :: rest ∧ Balanced (inner.map (·.word)) ∧
      c.word = closeWord := by
  rw [close?_eq_closeOf, view_next hv] at hcl
  obtain ⟨⟨c', rest⟩, hcr, hc'⟩ := Option.map_eq_some_iff.1 hcl
  obtain rfl : c' = c := hc'
  obtain ⟨inner, hls, hb, hw⟩ := Scan.closeOf_eq_some_iff.1 hcr
  exact ⟨inner, rest, hls, hb, hw⟩

end View

end Program

namespace Machine

/-! ### Steps of a run -/

/-- The machine after a step from `m`, when the step meets no fault. -/
def next? (p : Program) (m : Machine) : Option Machine :=
  match m.step p with
  | .ok st =>
    match st.effect with
    | .ok e => some e.final
    | .error _ => none
  | .error _ => none

/-- One step of a run from `m` to `m'`: `m` is not finished, and its step meets no fault. -/
def Next (p : Program) (m m' : Machine) : Prop :=
  m.finished = false ∧ m.next? p = some m'

instance {p : Program} {m m' : Machine} : Decidable (Next p m m') :=
  inferInstanceAs (Decidable (_ ∧ _))

/-- Steps of a run from `m` to `m'` during which the register saved `k`-th, counting from the
bottom, stays saved: each step leaves more than `k` saved registers. -/
def Keeps (p : Program) (k : Nat) : Machine → Machine → Prop :=
  Relation.ReflTransGen fun m m' => Next p m m' ∧ k < m'.snapshots.length

section Next

variable {sources : List Source} {p : Program} {entry : Bytes} {r : Nat} {m m' : Machine}

theorem next?_eq_some_iff :
    m.next? p = some m' ↔ ∃ st e, m.step p = .ok st ∧ st.effect = .ok e ∧ e.final = m' := by
  unfold next?
  constructor
  · intro h
    split at h
    next st hst =>
      split at h
      next e he =>
        cases h
        exact ⟨st, e, hst, he, rfl⟩
      next => cases h
    next => cases h
  · rintro ⟨st, e, hst, he, rfl⟩
    simp only [hst, he]

theorem next_iff : Next p m m' ↔
    m.finished = false ∧ ∃ st e, m.step p = .ok st ∧ st.effect = .ok e ∧ e.final = m' := by
  rw [Next, next?_eq_some_iff]

theorem Reaches.next (h : Reaches p entry r m) (hn : Next p m m') : Reaches p entry r m' := by
  obtain ⟨hfin, st, e, hst, he, rfl⟩ := next_iff.1 hn
  exact .step h hfin hst he

/-- A machine a run reaches is shaped while it has a register saved. -/
theorem Reaches.shaped (hp : Program.load sources = .ok p) (h : Reaches p entry r m)
    (hs : m.snapshots ≠ []) : Shaped p m := by
  cases settled_of_reaches hp h with
  | running _ hsh => exact hsh
  | done _ _ hnil _ => exact absurd hnil hs

theorem Reaches.shaped_of_running (hp : Program.load sources = .ok p) (h : Reaches p entry r m)
    (hfin : m.finished = false) : Shaped p m := by
  cases settled_of_reaches hp h with
  | running _ hsh => exact hsh
  | done hdone => exact absurd (hdone.symm.trans hfin) (by decide)

end Next

/-! ### What a step does -/

/-- What a step from `m` that reads the token `l` and has effect `e` does to the position, the
saved registers and the calls in progress. -/
inductive Move (p : Program) (m : Machine) (l : Lexeme) (e : Effect) : Prop
  /-- A token that is no brace and makes no call: the run goes on after it. -/
  | pass : l.word ≠ openWord → l.word ≠ closeWord → e.final.pc = ⟨m.pc.source, l.stop⟩ →
      e.final.depth = m.depth → e.final.snapshots = m.snapshots → e.final.frames = m.frames →
      Move p m l e
  /-- A `{` in the success mode enters its group and saves the register. -/
  | enter : l.word = openWord → m.mode = .success → e.final.pc = ⟨m.pc.source, l.stop⟩ →
      e.final.depth = m.depth + 1 → e.final.snapshots = m.register :: m.snapshots →
      e.final.frames = m.frames → Move p m l e
  /-- A `|` in the success mode lands on the `}` of its group. -/
  | skip {c : Lexeme} : l.word = barWord → p.close? ⟨m.pc.source, l.stop⟩ = some c →
      e.final.pc = ⟨m.pc.source, c.start⟩ → e.final.depth = m.depth →
      e.final.snapshots = m.snapshots → e.final.frames = m.frames → Move p m l e
  /-- A `{` in the failed mode passes over its whole group. -/
  | skipGroup {c : Lexeme} : l.word = openWord → m.mode = .failed →
      p.close? ⟨m.pc.source, l.stop⟩ = some c → e.final.pc = ⟨m.pc.source, c.stop⟩ →
      e.final.depth = m.depth → e.final.snapshots = m.snapshots → e.final.frames = m.frames →
      Move p m l e
  /-- A call goes to the called body, to come back just after the token. -/
  | call {a : Address} : l.word ≠ openWord → l.word ≠ closeWord → p.table.find? l.word = some a →
      m.mode = .success → e.final.pc = a → e.final.depth = m.depth →
      e.final.snapshots = m.snapshots →
      e.final.frames = ⟨m.depth, some ⟨m.pc.source, l.stop⟩, l.word⟩ :: m.frames → Move p m l e
  /-- A `}` closes the innermost group and drops its saved register. When that group is the
  body of the innermost call, the call is over: its frame goes, and the run goes back to where
  the call was made. -/
  | close {x : Nat} {saved : List Nat} {fr : Frame} {outer : List Frame} : l.word = closeWord →
      m.snapshots = x :: saved → m.frames = fr :: outer → e.final.depth = m.depth - 1 →
      e.final.snapshots = saved →
      (m.depth - 1 ≠ fr.depth → e.final.frames = m.frames ∧ e.final.pc = ⟨m.pc.source, l.stop⟩) →
      (m.depth - 1 = fr.depth → e.final.frames = outer ∧ ∀ a, fr.returnTo = some a → e.final.pc = a) →
      Move p m l e

section Moves

variable {p : Program} {src : Source} {m : Machine} {l : Lexeme} {ls : List Lexeme} {e : Effect}
  {st : Step}

/-- A token that reads as a symbol other than a brace, and leaves the groups and calls as they
are, passes. -/
theorem Move.of_symbol {o : Option Symbol} (hw : Symbol.ofWord? l.word = o)
    (ho : o ≠ some .openBrace) (hc : o ≠ some .closeBrace)
    (hpc : e.final.pc = ⟨m.pc.source, l.stop⟩) (hd : e.final.depth = m.depth)
    (hs : e.final.snapshots = m.snapshots) (hf : e.final.frames = m.frames) : Move p m l e :=
  have hne := Scan.ne_braces_of_ofWord? hw ho hc
  .pass hne.1 hne.2 hpc hd hs hf

theorem close_move (hw : l.word = closeWord)
    (h : close src { m with pc := ⟨m.pc.source, l.stop⟩ } l = .ok e) : Move p m l e := by
  cases hs : m.snapshots with
  | nil => simp [close, hs] at h
  | cons x saved =>
    cases hfr : m.frames with
    | nil => simp [close, hs, hfr] at h
    | cons fr outer =>
      simp only [close, hs, hfr] at h
      by_cases hd : m.depth - 1 = fr.depth
      · -- the body of the innermost call closes
        simp only [hd, ne_eq, not_true_eq_false, if_false] at h
        cases hret : fr.returnTo with
        | none =>
          simp only [hret] at h
          injection h with h
          subst h
          exact .close hw hs hfr hd.symm rfl (absurd hd) fun _ =>
            ⟨rfl, fun a ha => absurd (hret.symm.trans ha) (by simp)⟩
        | some a =>
          simp only [hret] at h
          injection h with h
          subst h
          exact .close hw hs hfr hd.symm rfl (absurd hd) fun _ =>
            ⟨rfl, fun a' ha' => by rw [hret] at ha'; cases ha'; rfl⟩
      · -- a group inside the body closes
        simp only [hd, ne_eq, not_false_eq_true, if_true] at h
        injection h with h
        subst h
        exact .close hw hs hfr rfl rfl (fun _ => ⟨hfr.symm, rfl⟩) (fun h => absurd h hd)

theorem succeed_move (hm : m.mode = .success)
    (h : succeed p src { m with pc := ⟨m.pc.source, l.stop⟩ } l = .ok e) : Move p m l e := by
  unfold succeed at h
  split at h
  next hw =>
    injection h with h
    subst h
    exact .of_symbol hw (by simp) (by simp) rfl rfl rfl rfl
  next hw =>
    split at h <;>
    · injection h with h
      subst h
      exact .of_symbol hw (by simp) (by simp) rfl rfl rfl rfl
  next hw =>
    injection h with h
    subst h
    exact .enter (Scan.ofWord?_eq_openBrace.1 hw) hm rfl rfl rfl rfl
  next hw => exact close_move (Scan.ofWord?_eq_closeBrace.1 hw) h
  next hw =>
    split at h
    next => cases h
    next c hc =>
      injection h with h
      subst h
      exact .skip (Symbol.ofWord?_eq_some_iff.1 hw) hc rfl rfl rfl rfl
  next hw =>
    injection h with h
    subst h
    exact .of_symbol hw (by simp) (by simp) rfl rfl rfl rfl
  next hw =>
    injection h with h
    subst h
    exact .of_symbol hw (by simp) (by simp) rfl rfl rfl rfl
  next hw =>
    injection h with h
    subst h
    exact .of_symbol hw (by simp) (by simp) rfl rfl rfl rfl
  next _ _ _ hno hnc _ _ _ _ =>
    -- any other token calls a function
    have ho : l.word ≠ openWord := fun hw => hno (Scan.ofWord?_eq_openBrace.2 hw)
    have hc : l.word ≠ closeWord := fun hw => hnc (Scan.ofWord?_eq_closeBrace.2 hw)
    split at h
    next => cases h
    next a ha =>
      injection h with h
      subst h
      exact .call ho hc ha hm rfl rfl rfl rfl

theorem recover_move (hm : m.mode = .failed)
    (h : recover p src { m with pc := ⟨m.pc.source, l.stop⟩ } l = .ok e) : Move p m l e := by
  unfold recover at h
  split at h
  next hw =>
    split at h
    next => cases h
    next c hc =>
      injection h with h
      subst h
      exact .skipGroup (Scan.ofWord?_eq_openBrace.1 hw) hm hc rfl rfl rfl rfl
  next hw => exact close_move (Scan.ofWord?_eq_closeBrace.1 hw) h
  next hw =>
    split at h
    next => cases h
    next =>
      injection h with h
      subst h
      exact .of_symbol hw (by simp) (by simp) rfl rfl rfl rfl
  next hno hnc _ =>
    injection h with h
    subst h
    have ho : l.word ≠ openWord := fun hw => hno (Scan.ofWord?_eq_openBrace.2 hw)
    have hc : l.word ≠ closeWord := fun hw => hnc (Scan.ofWord?_eq_closeBrace.2 hw)
    exact .pass ho hc rfl rfl rfl rfl

/-- A step reads the token at the machine's address. -/
theorem lexeme_of_step (hv : p.view m.pc = l :: ls) (hst : m.step p = .ok st) : st.lexeme = l := by
  obtain ⟨r, hr, -⟩ := Program.read_of_view hv
  simp only [step, hr] at hst
  cases hst
  rfl

/-- **Every step that meets no fault is a `Move`.** -/
theorem step_move (hv : p.view m.pc = l :: ls) (hst : m.step p = .ok st)
    (he : st.effect = .ok e) : st.lexeme = l ∧ Move p m l e := by
  refine ⟨lexeme_of_step hv hst, ?_⟩
  cases hm : m.mode with
  | success =>
    rw [step_of_view_success hv hm] at hst
    cases hst
    exact succeed_move hm he
  | failed =>
    rw [step_of_view_failed hv hm] at hst
    cases hst
    exact recover_move hm he

/-- Only a `}` drops a saved register. -/
theorem Move.length_le (h : Move p m l e) (hc : l.word ≠ closeWord) :
    m.snapshots.length ≤ e.final.snapshots.length := by
  cases h with
  | pass _ _ _ _ hs _ => exact Nat.le_of_eq (congrArg List.length hs.symm)
  | enter _ _ _ _ hs _ => rw [hs, List.length_cons]; omega
  | skip _ _ _ _ hs _ => exact Nat.le_of_eq (congrArg List.length hs.symm)
  | skipGroup _ _ _ _ _ hs _ => exact Nat.le_of_eq (congrArg List.length hs.symm)
  | call _ _ _ _ _ _ hs _ => exact Nat.le_of_eq (congrArg List.length hs.symm)
  | close hw => exact absurd hw hc

/-- A `}` drops exactly one saved register. -/
theorem Move.snapshots_of_close (h : Move p m l e) (hc : l.word = closeWord) :
    ∃ x, m.snapshots = x :: e.final.snapshots := by
  cases h with
  | pass _ hc' => exact absurd hc hc'
  | enter ho => exact absurd (ho.symm.trans hc) Scan.openWord_ne_closeWord
  | skip hbar => exact absurd (hbar.symm.trans hc) barWord_ne_closeWord
  | skipGroup ho => exact absurd (ho.symm.trans hc) Scan.openWord_ne_closeWord
  | call _ hc' => exact absurd hc hc'
  | close _ hs _ _ hsn => exact ⟨_, hsn ▸ hs⟩

/-- A `{` read in the success mode enters its group. -/
theorem Move.of_open (h : Move p m l e) (ho : l.word = openWord) (hm : m.mode = .success) :
    e.final.pc = ⟨m.pc.source, l.stop⟩ ∧ e.final.depth = m.depth + 1 ∧
      e.final.snapshots = m.register :: m.snapshots ∧ e.final.frames = m.frames := by
  cases h with
  | pass ho' => exact absurd ho ho'
  | enter _ _ hpc hd hs hf => exact ⟨hpc, hd, hs, hf⟩
  | skip hbar => exact absurd (hbar.symm.trans ho) barWord_ne_openWord
  | skipGroup _ hm' => rw [hm] at hm'; cases hm'
  | call ho' => exact absurd ho ho'
  | close hc => exact absurd (ho.symm.trans hc) Scan.openWord_ne_closeWord

/-- A `|` read in the failed mode restores the register saved by the innermost group and goes
back to the success mode. -/
theorem recover_backtrack {b : Address} (hbar : l.word = barWord)
    (h : recover p src { m with pc := b } l = .ok e) :
    ∃ x saved, m.snapshots = x :: saved ∧ e.final.register = x ∧ e.final.mode = .success := by
  have hw : Symbol.ofWord? l.word = some .bar := Symbol.ofWord?_eq_some_iff.2 hbar
  simp only [recover, hw] at h
  cases hs : m.snapshots with
  | nil => simp [hs] at h
  | cons x saved =>
    simp only [hs] at h
    injection h with h
    subst h
    exact ⟨x, saved, rfl, rfl, rfl⟩

/-- The text after a `{` read in the success mode closes its group. -/
theorem Shaped.close?_of_open (h : Shaped p m) (hv : p.view m.pc = l :: ls)
    (ho : l.word = openWord) : ∃ c, p.close? ⟨m.pc.source, l.stop⟩ = some c := by
  obtain ⟨f, fs, -, hat⟩ := h.text
  have hcl : ∃ k, Scan.Closes (k + 1) ls := by
    cases hat with
    | entry _ _ _ hvo _ hcl =>
      rw [hv] at hvo
      obtain ⟨-, rfl⟩ := List.cons.inj hvo
      exact ⟨0, hcl⟩
    | inside hlt hcl => exact ⟨_, Scan.closes_of_cons_open ho (Nat.sub_pos_of_lt hlt) (hv ▸ hcl)⟩
  obtain ⟨k, c, rest, hcr, -⟩ := hcl
  exact ⟨c, by rw [Program.close?_eq_closeOf, Program.view_next hv, hcr]; rfl⟩

end Moves

/-! ### A group, from its `{` to its `}` -/

/-- A group that a run has entered, as it stood at its `{`. -/
structure Entered where
  /-- The address just after the `{`. -/
  start : Address
  /-- The register saved at the `{`. -/
  saved : Nat
  /-- The registers saved before, for the groups around it, the innermost first. -/
  below : List Nat
  /-- The calls in progress at the `{`, the innermost first. -/
  frames : List Frame

/-- The group entered by reading the `{` token `l` from `m`. -/
def entered (m : Machine) (l : Lexeme) : Entered :=
  ⟨⟨m.pc.source, l.stop⟩, m.register, m.snapshots, m.frames⟩

namespace Entered

/-- The run stands at address `b`, `d` groups deep, in the text of group `g`: in the group's
source, with what it has read of the group's text since the `{` leaving open the groups entered
since. -/
def ReadTo (p : Program) (g : Entered) (d : Nat) (b : Address) : Prop :=
  b.source = g.start.source ∧ g.below.length < d ∧
    ∃ pre, p.view g.start = pre ++ p.view b ∧
      Scan.Opens (d - (g.below.length + 1)) (pre.map (·.word))

/-- Where the run stands with respect to the text of group `g`. -/
inductive Resumes (p : Program) (g : Entered) (m : Machine) : Prop
  /-- In the call that entered the group, reading the group's text. -/
  | here : m.frames = g.frames → g.ReadTo p m.depth m.pc → Resumes p g m
  /-- In calls made inside the group; the first of them returns into the group's text. -/
  | away {calls : List Frame} {f : Frame} {b : Address} : m.frames = calls ++ f :: g.frames →
      f.returnTo = some b → g.ReadTo p f.depth b → Resumes p g m

/-- Group `g` is still open in machine `m`: its register is saved under those of the groups
entered since, the call that entered it was made no deeper than the group, and the run goes on
in the group's text, now or when the calls made since return. -/
structure Holds (p : Program) (g : Entered) (m : Machine) : Prop where
  snapshots : ∃ inner, m.snapshots = inner ++ g.saved :: g.below
  outer : ∀ f ∈ g.frames.head?, f.depth ≤ g.below.length
  resumes : g.Resumes p m

section ReadTo

variable {p : Program} {g : Entered} {d : Nat} {a b : Address} {l c : Lexeme} {ls : List Lexeme}

/-- Reading on from `a` to `b`, in the same source, past the tokens `u`. -/
theorem ReadTo.advance {u : List Lexeme} {d' : Nat} (h : g.ReadTo p d a) (hb : b.source = a.source)
    (hv : p.view a = u ++ p.view b) (hd : g.below.length < d')
    (hop : ∀ ws, Scan.Opens (d - (g.below.length + 1)) ws →
      Scan.Opens (d' - (g.below.length + 1)) (ws ++ u.map (·.word))) :
    g.ReadTo p d' b := by
  obtain ⟨hs, -, pre, hpre, hopen⟩ := h
  refine ⟨hb.trans hs, hd, pre ++ u, by rw [hpre, hv, List.append_assoc], ?_⟩
  rw [List.map_append]
  exact hop _ hopen

theorem ReadTo.next (h : g.ReadTo p d a) (hv : p.view a = l :: ls) (ho : l.word ≠ openWord)
    (hc : l.word ≠ closeWord) : g.ReadTo p d ⟨a.source, l.stop⟩ :=
  h.advance rfl (Program.view_eq_singleton_append hv) h.2.1 fun _ hws => hws.append_word ho hc

theorem ReadTo.enter (h : g.ReadTo p d a) (hv : p.view a = l :: ls) (ho : l.word = openWord) :
    g.ReadTo p (d + 1) ⟨a.source, l.stop⟩ := by
  have hd := h.2.1
  refine h.advance rfl (Program.view_eq_singleton_append hv) (by omega) fun ws hws => ?_
  have hk : d + 1 - (g.below.length + 1) = d - (g.below.length + 1) + 1 := by omega
  show Scan.Opens _ (ws ++ [l.word])
  rw [hk, ho]
  exact hws.append_open

/-- A `}` that is not the group's own closes the innermost group entered since. -/
theorem ReadTo.close (h : g.ReadTo p (d + 1) a) (hv : p.view a = l :: ls)
    (hc : l.word = closeWord) (hd : g.below.length < d) : g.ReadTo p d ⟨a.source, l.stop⟩ := by
  refine h.advance rfl (Program.view_eq_singleton_append hv) hd fun ws hws => ?_
  have hk : d + 1 - (g.below.length + 1) = d - (g.below.length + 1) + 1 := by omega
  show Scan.Opens _ (ws ++ [l.word])
  rw [hc]
  exact (hk ▸ hws).append_close

/-- Passing over the rest of an alternative after a `|` lands on the `}` of the innermost group,
past a balanced stretch. -/
theorem ReadTo.skip (h : g.ReadTo p d a) (hv : p.view a = l :: ls) (ho : l.word ≠ openWord)
    (hc : l.word ≠ closeWord) (hcl : p.close? ⟨a.source, l.stop⟩ = some c) :
    g.ReadTo p d ⟨a.source, c.start⟩ := by
  obtain ⟨inner, rest, rfl, hb, -⟩ := Program.exists_of_close? hv hcl
  have hvc : p.view ⟨a.source, c.start⟩ = c :: rest :=
    (Program.view_of_eq_append (Program.view_next hv)).1
  refine h.advance (u := l :: inner) rfl (by rw [hv, hvc]; rfl) h.2.1 fun ws hws => ?_
  exact hws.append_balanced (.word ho hc hb)

/-- Passing over a whole group in the failed mode adds a balanced stretch. -/
theorem ReadTo.skipGroup (h : g.ReadTo p d a) (hv : p.view a = l :: ls) (ho : l.word = openWord)
    (hcl : p.close? ⟨a.source, l.stop⟩ = some c) : g.ReadTo p d ⟨a.source, c.stop⟩ := by
  obtain ⟨inner, rest, rfl, hb, hcw⟩ := Program.exists_of_close? hv hcl
  have hvc : p.view ⟨a.source, c.stop⟩ = rest :=
    (Program.view_of_eq_append (Program.view_next hv)).2
  refine h.advance (u := l :: inner ++ [c]) rfl (by rw [hv, hvc]; simp) h.2.1 fun ws hws => ?_
  have hg : Balanced ((l :: inner ++ [c]).map (·.word)) := by
    rw [List.map_append, List.map_cons, List.map_singleton, ho, hcw]
    exact .group hb .nil
  exact hws.append_balanced hg

/-- With no group entered since, the run has read a balanced stretch of the group's text. -/
theorem ReadTo.top (h : g.ReadTo p (g.below.length + 1) a) :
    a.source = g.start.source ∧
      ∃ pre, p.view g.start = pre ++ p.view a ∧ Balanced (pre.map (·.word)) := by
  obtain ⟨hs, -, pre, hpre, hopen⟩ := h
  rw [Nat.sub_self] at hopen
  exact ⟨hs, pre, hpre, hopen⟩

end ReadTo

section Holds

variable {sources : List Source} {p : Program} {entry : Bytes} {r : Nat} {g : Entered}
  {m m' : Machine} {l : Lexeme} {ls : List Lexeme} {st : Step} {e : Effect}

/-- A step that keeps the calls keeps where the run goes on, given what it does in the group's
own call. -/
theorem Resumes.keep (h : g.Resumes p m) (hf : m'.frames = m.frames)
    (hread : m.frames = g.frames → g.ReadTo p m.depth m.pc → g.ReadTo p m'.depth m'.pc) :
    g.Resumes p m' := by
  cases h with
  | here hg hr => exact .here (hf.trans hg) (hread hg hr)
  | away hg hret hr => exact .away (hf.trans hg) hret hr

/-- A `}` that keeps the group's register drops one saved since. -/
theorem saved_of_drop {x : Nat} {saved inner : List Nat}
    (hs : x :: saved = inner ++ g.saved :: g.below) (hk : g.below.length < saved.length) :
    ∃ inner', saved = inner' ++ g.saved :: g.below := by
  cases inner with
  | nil =>
    rw [List.nil_append, List.cons.injEq] at hs
    rw [hs.2] at hk
    exact absurd hk (Nat.lt_irrefl _)
  | cons y inner' =>
    rw [List.cons_append, List.cons.injEq] at hs
    exact ⟨inner', hs.2⟩

/-- A `}` that keeps the group open closes a group entered since, or the body of a call made
inside the group; that call returns into the group's text, or into an earlier call made inside
it. -/
theorem Resumes.close {fr : Frame} {outer : List Frame} (h : g.Resumes p m)
    (hout : ∀ f ∈ g.frames.head?, f.depth ≤ g.below.length) (hv : p.view m.pc = l :: ls)
    (hcw : l.word = closeWord) (hfr : m.frames = fr :: outer)
    (hdeep : g.below.length + 1 < m.depth) (hd : m'.depth = m.depth - 1)
    (hin : m.depth - 1 ≠ fr.depth → m'.frames = m.frames ∧ m'.pc = ⟨m.pc.source, l.stop⟩)
    (hback : m.depth - 1 = fr.depth → m'.frames = outer ∧ ∀ a, fr.returnTo = some a → m'.pc = a) :
    g.Resumes p m' := by
  by_cases hdf : m.depth - 1 = fr.depth
  · obtain ⟨hfe, hpc⟩ := hback hdf
    cases h with
    | here hg _ =>
      -- the group's own call cannot return while the group is open
      rw [hg] at hfr
      have hle := hout fr (by rw [hfr]; rfl)
      omega
    | @away calls f b hg hret hr =>
      cases calls with
      | nil =>
        -- the first call made inside the group returns into its text
        rw [hfr, List.nil_append, List.cons.injEq] at hg
        obtain ⟨rfl, rfl⟩ := hg
        refine .here hfe ?_
        rw [hd, hpc b hret, hdf]
        exact hr
      | cons c calls =>
        rw [hfr, List.cons_append, List.cons.injEq] at hg
        exact .away (hfe.trans hg.2) hret hr
  · obtain ⟨hfe, hpc⟩ := hin hdf
    refine h.keep hfe fun _ hr => ?_
    rw [hpc, hd]
    have hr' : g.ReadTo p (m.depth - 1 + 1) m.pc := by
      rwa [Nat.sub_add_cancel (by omega)]
    exact hr'.close hv hcw (by omega)

theorem Holds.length_lt (h : g.Holds p m) : g.below.length < m.snapshots.length := by
  obtain ⟨inner, hs⟩ := h.snapshots
  rw [hs, List.length_append, List.length_cons]
  omega

/-- **A step that keeps the group's register keeps the group open.** One case per kind of
move; in the group's own call, `ReadTo` follows the position through the group's text. -/
theorem Holds.step (hsh : Shaped p m) (h : g.Holds p m) (hv : p.view m.pc = l :: ls)
    (hmove : Move p m l e) (hk : g.below.length < e.final.snapshots.length) :
    g.Holds p e.final := by
  obtain ⟨⟨inner, hs⟩, hout, hres⟩ := h
  cases hmove with
  | pass ho hc hpc hd hsn hf =>
    refine ⟨⟨inner, hsn.trans hs⟩, hout, hres.keep hf fun _ hr => ?_⟩
    rw [hpc, hd]
    exact hr.next hv ho hc
  | enter ho _ hpc hd hsn hf =>
    refine ⟨⟨m.register :: inner, by rw [hsn, hs]; rfl⟩, hout, hres.keep hf fun _ hr => ?_⟩
    rw [hpc, hd]
    exact hr.enter hv ho
  | skip hbar hcl hpc hd hsn hf =>
    refine ⟨⟨inner, hsn.trans hs⟩, hout, hres.keep hf fun _ hr => ?_⟩
    rw [hpc, hd]
    exact hr.skip hv (hbar ▸ barWord_ne_openWord) (hbar ▸ barWord_ne_closeWord) hcl
  | skipGroup ho _ hcl hpc hd hsn hf =>
    refine ⟨⟨inner, hsn.trans hs⟩, hout, hres.keep hf fun _ hr => ?_⟩
    rw [hpc, hd]
    exact hr.skipGroup hv ho hcl
  | call ho hc _ _ _ _ hsn hf =>
    refine ⟨⟨inner, hsn.trans hs⟩, hout, ?_⟩
    cases hres with
    | here hg hr =>
      -- a call from the group's own text: it returns just after its token
      have hframes : e.final.frames =
          [] ++ ⟨m.depth, some ⟨m.pc.source, l.stop⟩, l.word⟩ :: g.frames := by
        rw [hf, hg]
        rfl
      exact .away hframes rfl (hr.next hv ho hc)
    | away hg hret hr => exact .away (by rw [hf, hg, List.cons_append]) hret hr
  | close hcw hs' hfr hd hsn hin hback =>
    have hlen : m.snapshots.length = m.depth := hsh.snapshots_length
    rw [hs', List.length_cons] at hlen
    rw [hsn] at hk
    obtain ⟨inner', hsaved⟩ := saved_of_drop (hs'.symm.trans hs) hk
    exact ⟨⟨inner', hsn.trans hsaved⟩, hout, hres.close hout hv hcw hfr (by omega) hd hin hback⟩

/-- Right after its `{`, the group is open, with nothing of its text read. -/
theorem holds_entered (hsh : Shaped p m) (hmove : Move p m l e) (ho : l.word = openWord)
    (hm : m.mode = .success) : (entered m l).Holds p e.final := by
  obtain ⟨hpc, hd, hsn, hf⟩ := hmove.of_open ho hm
  obtain ⟨f, fs, hfs, hat⟩ := hsh.text
  have hk : m.snapshots.length = m.depth := hsh.snapshots_length
  refine ⟨⟨[], hsn⟩, ?_, .here hf ⟨by rw [hpc]; rfl, ?_, [], by rw [hpc]; rfl, ?_⟩⟩
  · intro f' hf'
    rw [entered, hfs, List.head?_cons, Option.mem_some_iff] at hf'
    subst hf'
    rw [entered, hk]
    exact hat.depth_le
  · show m.snapshots.length < e.final.depth
    omega
  · show Scan.Opens (e.final.depth - (m.snapshots.length + 1)) []
    rw [hd, hk, Nat.sub_self]
    exact .nil

/-- **A group stays open along the steps that keep its register.** The induction is on the
steps; `Holds.step` carries the record over each. -/
theorem Holds.keeps (hp : Program.load sources = .ok p) (hr : Reaches p entry r m)
    (h : g.Holds p m) (hkeep : Keeps p g.below.length m m') :
    Reaches p entry r m' ∧ g.Holds p m' := by
  induction hkeep with
  | refl => exact ⟨hr, h⟩
  | tail _ hnext ih =>
    obtain ⟨hr', h'⟩ := ih
    obtain ⟨hn, hk⟩ := hnext
    obtain ⟨hfin, st, e, hst, he, rfl⟩ := next_iff.1 hn
    have hsh := hr'.shaped_of_running hp hfin
    obtain ⟨l, ls, hv⟩ := hsh.view_cons
    exact ⟨.step hr' hfin hst he, h'.step hsh hv (step_move hv hst he).2 hk⟩

/-- With the group's register on top, the run reads the group's own text, or is about to enter
the body of a function called from it. -/
theorem Holds.top (hsh : Shaped p m) (h : g.Holds p m)
    (hlen : m.snapshots.length = g.below.length + 1) :
    (m.frames = g.frames ∧ g.ReadTo p (g.below.length + 1) m.pc) ∨
      (m.mode = .success ∧ ∃ o os, p.view m.pc = o :: os ∧ o.word = openWord) := by
  have hd : m.depth = g.below.length + 1 := hsh.snapshots_length ▸ hlen
  cases h.resumes with
  | here hg hr => exact .inl ⟨hg, hd ▸ hr⟩
  | @away calls f b hg hret hr =>
    -- the innermost call was made inside the group, so it was entered at the machine's depth
    obtain ⟨f₀, fs, hfs, hat⟩ := hsh.text
    have hf₀ : f.depth ≤ f₀.depth := by
      have hmem : f ∈ f₀ :: fs := by rw [← hfs, hg]; simp
      rcases List.mem_cons.1 hmem with rfl | hmem
      · exact Nat.le_refl _
      · exact Nat.le_of_lt (CallsFit.depth_lt (hfs ▸ hsh.calls) f hmem)
    have hfd : f₀.depth = m.depth := by
      have := hr.2.1
      have := hat.depth_le
      omega
    obtain ⟨hm, -, o, os, hvo, ho⟩ := hat.entry_of_depth_eq hfd
    exact .inr ⟨hm, o, os, hvo, ho⟩

/-- **The step that drops the group's register reads the `}` that the scanner finds from just
after the group's `{`.** -/
theorem Holds.pop (hsh : Shaped p m) (h : g.Holds p m) (hn : Next p m m')
    (hle : m'.snapshots.length ≤ g.below.length) :
    m.pc.source = g.start.source ∧
      ∃ l, (p.read m.pc).map (·.1) = some l ∧ p.close? g.start = some l := by
  obtain ⟨-, st, e, hst, he, rfl⟩ := next_iff.1 hn
  obtain ⟨l, ls, hv⟩ := hsh.view_cons
  obtain ⟨-, hmove⟩ := step_move hv hst he
  obtain ⟨rest, hr, -⟩ := Program.read_of_view hv
  have hlt := h.length_lt
  -- only a `}` drops a saved register, and it drops one
  have hcw : l.word = closeWord := by
    by_contra hc
    have := hmove.length_le hc
    omega
  obtain ⟨x, hx⟩ := hmove.snapshots_of_close hcw
  have htop : m.snapshots.length = g.below.length + 1 := by
    rw [hx, List.length_cons] at hlt ⊢
    omega
  rcases h.top hsh htop with ⟨-, hread⟩ | ⟨-, o, os, hvo, ho⟩
  · obtain ⟨hs, pre, hpre, hb⟩ := hread.top
    refine ⟨hs, l, by rw [hr]; rfl, ?_⟩
    rw [Program.close?_eq_closeOf, hpre, hv, Scan.closeOf_balanced_close ls hb hcw]
    rfl
  · rw [hv] at hvo
    obtain ⟨rfl, -⟩ := List.cons.inj hvo
    exact absurd (ho.symm.trans hcw) Scan.openWord_ne_closeWord

/-- **A `|` read in the failed mode with the group's register on top stands at the top level of
the group, before its `}`, and puts that register back.** -/
theorem Holds.backtrack (hsh : Shaped p m) (h : g.Holds p m)
    (hlen : m.snapshots.length = g.below.length + 1) (hm : m.mode = .failed)
    (hbar : (p.read m.pc).map (·.1.word) = some barWord) {c : Lexeme}
    (hc : p.close? g.start = some c) :
    m.pc.source = g.start.source ∧
      (∃ pre l mid post, p.view g.start = pre ++ l :: mid ++ c :: post ∧
        (p.read m.pc).map (·.1) = some l ∧
        Balanced (pre.map (·.word)) ∧ Balanced (mid.map (·.word))) ∧
      ∀ m', Next p m m' → m'.register = g.saved ∧ m'.mode = .success := by
  obtain ⟨l, ls, hv⟩ := hsh.view_cons
  obtain ⟨rest, hr, -⟩ := Program.read_of_view hv
  have hlb : l.word = barWord := by
    rw [hr] at hbar
    exact Option.some.inj hbar
  rcases h.top hsh hlen with ⟨-, hread⟩ | ⟨hm', -⟩
  · obtain ⟨hs, pre, hpre, hb⟩ := hread.top
    refine ⟨hs, ?_, fun m' hn => ?_⟩
    · -- the scanner passes over the balanced stretch and the `|`, and finds the close after
      rw [Program.close?_eq_closeOf, hpre, hv, Scan.closeOf_append_of_balanced hb 0 _ rfl,
        Scan.closeOf_other (hlb ▸ barWord_ne_openWord) (hlb ▸ barWord_ne_closeWord)] at hc
      obtain ⟨⟨c', post⟩, hcr, hc'⟩ := Option.map_eq_some_iff.1 hc
      obtain rfl : c' = c := hc'
      obtain ⟨mid, rfl, hmid, -⟩ := Scan.closeOf_eq_some_iff.1 hcr
      exact ⟨pre, l, mid, post, by rw [hpre, hv]; simp, by rw [hr]; rfl, hb, hmid⟩
    · -- the group's register is the innermost saved, and the `|` restores it
      obtain ⟨-, st, e, hst, he, rfl⟩ := next_iff.1 hn
      rw [step_of_view_failed hv hm] at hst
      cases hst
      obtain ⟨x, saved, hxs, hreg, hmode⟩ := recover_backtrack hlb he
      obtain ⟨inner, hsn⟩ := h.snapshots
      have hinner : inner = [] := by
        have := congrArg List.length hsn
        rw [List.length_append, List.length_cons] at this
        exact List.eq_nil_of_length_eq_zero (by omega)
      rw [hsn, hinner, List.nil_append, List.cons.injEq] at hxs
      exact ⟨hreg.trans hxs.1.symm, hmode⟩
  · rw [hm] at hm'
    cases hm'

end Holds

end Entered

/-! ### The groups of a run -/

/-- What the run shows, at machine `m₂`, of the group entered by the step to `m₁`, which saved
the register `saved` on top of the registers `below`, while that register stays saved. The text
from `m₁`'s address closes the group at a `}` token `c`; the register is still saved in its
place; the step that drops it reads `c`, in the source of the group; and when the register is
the innermost saved, a `|` read in the failed mode stands in the group's source at its top
level, after a balanced stretch of its text and before another that ends at `c`, and restores
the register. -/
def GroupMatch (p : Program) (saved : Nat) (below : List Nat) (m₁ m₂ : Machine) : Prop :=
  ∃ c, p.close? m₁.pc = some c ∧
    (∃ inner, m₂.snapshots = inner ++ saved :: below) ∧
    (∀ m₃, Next p m₂ m₃ → m₃.snapshots.length ≤ below.length →
      m₂.pc.source = m₁.pc.source ∧ (p.read m₂.pc).map (·.1) = some c) ∧
    (m₂.snapshots.length = below.length + 1 → m₂.mode = .failed →
      (p.read m₂.pc).map (·.1.word) = some barWord →
      m₂.pc.source = m₁.pc.source ∧
      (∃ pre l mid post, p.view m₁.pc = pre ++ l :: mid ++ c :: post ∧
        (p.read m₂.pc).map (·.1) = some l ∧
        Balanced (pre.map (·.word)) ∧ Balanced (mid.map (·.word))) ∧
      ∀ m₃, Next p m₂ m₃ → m₃.register = saved ∧ m₃.mode = .success)

section Runs

variable {sources : List Source} {p : Program} {entry : Bytes} {r : Nat} {m m₁ m₂ : Machine}

/-- **The groups a run enters close where the scanner closes them.** Whenever a run of a loaded
program reads a `{` in the success mode at machine `m` and steps to `m₁`, saving the register as
the `k`-th, counting from the bottom, then at every machine `m₂` reached while that register
stays saved, through any calls and returns and in either mode, the run shows `GroupMatch`: the
step that drops the register reads the `}` that the scanner finds from `m₁`'s address, and a
`|` read in the failed mode while the register is the innermost saved is a top-level `|` of the
same group and restores the register saved at the `{`. -/
theorem group_matches_scan (hp : Program.load sources = .ok p) (hm : Reaches p entry r m)
    (hmode : m.mode = .success) (ho : (p.read m.pc).map (·.1.word) = some openWord)
    (hnext : Next p m m₁) (hkeep : Keeps p m.snapshots.length m₁ m₂) :
    GroupMatch p m.register m.snapshots m₁ m₂ := by
  obtain ⟨hfin, st, e, hst, he, rfl⟩ := next_iff.1 hnext
  have hsh := hm.shaped_of_running hp hfin
  obtain ⟨l, ls, hv⟩ := hsh.view_cons
  obtain ⟨-, hmove⟩ := step_move hv hst he
  have hlo : l.word = openWord := by
    obtain ⟨rest, hr, -⟩ := Program.read_of_view hv
    rw [hr] at ho
    exact Option.some.inj ho
  obtain ⟨hpc, -⟩ := hmove.of_open hlo hmode
  obtain ⟨hr₂, h₂⟩ :=
    (Entered.holds_entered hsh hmove hlo hmode).keeps hp (.step hm hfin hst he) hkeep
  have hsh₂ : Shaped p m₂ := hr₂.shaped hp (List.ne_nil_of_length_pos (by
    have := h₂.length_lt
    omega))
  obtain ⟨c, hc⟩ := hsh.close?_of_open hv hlo
  unfold GroupMatch
  rw [hpc]
  refine ⟨c, hc, h₂.snapshots, fun m₃ hn₃ hle => ?_,
    fun hlen hm₂ hbar => h₂.backtrack hsh₂ hlen hm₂ hbar hc⟩
  obtain ⟨hs, l₂, hr, hcl⟩ := h₂.pop hsh₂ hn₃ hle
  obtain rfl : c = l₂ := Option.some.inj (hc.symm.trans hcl)
  exact ⟨hs, hr⟩

open Samples in
/-- In `threeWays` run from register 1, the inner group is entered with the register 1 saved;
its first alternative fails, and the run reaches the `|` after it in the failed mode. -/
theorem group_matches_scan_threeWays :
    Program.load [threeWays] = .ok threeWaysProgram ∧
    Reaches threeWaysProgram (word "main") 1
      ⟨1, .success, 1, [1], [⟨0, none, word "main"⟩], false, none, ⟨0, 70⟩⟩ ∧
    (threeWaysProgram.read ⟨0, 70⟩).map (·.1.word) = some openWord ∧
    Next threeWaysProgram
      ⟨1, .success, 1, [1], [⟨0, none, word "main"⟩], false, none, ⟨0, 70⟩⟩
      ⟨1, .success, 2, [1, 1], [⟨0, none, word "main"⟩], false, none, ⟨0, 74⟩⟩ ∧
    Keeps threeWaysProgram 1
      ⟨1, .success, 2, [1, 1], [⟨0, none, word "main"⟩], false, none, ⟨0, 74⟩⟩
      ⟨0, .failed, 2, [1, 1], [⟨0, none, word "main"⟩], false, none, ⟨0, 80⟩⟩ ∧
    GroupMatch threeWaysProgram 1 [1]
      ⟨1, .success, 2, [1, 1], [⟨0, none, word "main"⟩], false, none, ⟨0, 74⟩⟩
      ⟨0, .failed, 2, [1, 1], [⟨0, none, word "main"⟩], false, none, ⟨0, 80⟩⟩ := by
  have hstart : start threeWaysProgram (word "main") 1 =
      .ok (⟨1, .success, 0, [], [⟨0, none, word "main"⟩], false, none, ⟨0, 68⟩⟩,
        .enter (word "main") ⟨0, 68⟩ 1) :=
    start_of_find? (by decide +kernel)
  have hm : Reaches threeWaysProgram (word "main") 1
      ⟨1, .success, 1, [1], [⟨0, none, word "main"⟩], false, none, ⟨0, 70⟩⟩ :=
    (Reaches.start hstart).next (by decide +kernel)
  have hread : (threeWaysProgram.read ⟨0, 70⟩).map (·.1.word) = some openWord := by
    decide +kernel
  have hnext : Next threeWaysProgram
      ⟨1, .success, 1, [1], [⟨0, none, word "main"⟩], false, none, ⟨0, 70⟩⟩
      ⟨1, .success, 2, [1, 1], [⟨0, none, word "main"⟩], false, none, ⟨0, 74⟩⟩ := by
    decide +kernel
  -- the three `-` of the first alternative: the last one fails
  have h₁ : Next threeWaysProgram
      ⟨1, .success, 2, [1, 1], [⟨0, none, word "main"⟩], false, none, ⟨0, 74⟩⟩
      ⟨0, .success, 2, [1, 1], [⟨0, none, word "main"⟩], false, none, ⟨0, 76⟩⟩ := by
    decide +kernel
  have h₂ : Next threeWaysProgram
      ⟨0, .success, 2, [1, 1], [⟨0, none, word "main"⟩], false, none, ⟨0, 76⟩⟩
      ⟨0, .failed, 2, [1, 1], [⟨0, none, word "main"⟩], false, none, ⟨0, 78⟩⟩ := by
    decide +kernel
  have h₃ : Next threeWaysProgram
      ⟨0, .failed, 2, [1, 1], [⟨0, none, word "main"⟩], false, none, ⟨0, 78⟩⟩
      ⟨0, .failed, 2, [1, 1], [⟨0, none, word "main"⟩], false, none, ⟨0, 80⟩⟩ := by
    decide +kernel
  have hkeep : Keeps threeWaysProgram 1
      ⟨1, .success, 2, [1, 1], [⟨0, none, word "main"⟩], false, none, ⟨0, 74⟩⟩
      ⟨0, .failed, 2, [1, 1], [⟨0, none, word "main"⟩], false, none, ⟨0, 80⟩⟩ :=
    .tail (.tail (.single ⟨h₁, by decide⟩) ⟨h₂, by decide⟩) ⟨h₃, by decide⟩
  exact ⟨load_threeWays, hm, hread, hnext, hkeep,
    group_matches_scan load_threeWays hm rfl hread hnext hkeep⟩

end Runs

end Machine

end Abacus
