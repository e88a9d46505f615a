import Abacus.Proofs.Table
import Abacus.Machine.Step

/-!
# The shape of a running machine

The machine keeps no tree of the program: it keeps a depth, one saved register per open group, a
chain of frames, and an address to read from. Its steps are safe because of how these stand to
the text. Where the machine reads, the text closes every group that the innermost call has
open; each frame below returns to an address from where the text closes the groups its caller
still has open; and the depth of a call's frame is below the depth inside its body, except
right after the call, when the next token is the `{` of the body.

From that shape, which every step keeps, a run of a program whose table was built never meets
the end of a source, never closes a group with nothing open, and never fails to find the close
of a group: the only fault a step can meet is a call of a function that is not defined. When
the first function's body closes, nothing is left open.

## Main definitions

* `Program.view` — the tokens of the program from an address on.
* `Machine.CallsFit`, `Machine.AtText`, `Machine.Shaped` — the shape of a running machine.
* `Machine.Reaches` — the machines a run passes through.

## Main statements

* `Machine.Shaped.step_ok`, `Machine.Shaped.step_fault` — what a step from a shaped machine
  leaves.
* `Machine.settled_of_reaches` — every machine a run passes through is shaped, or finished with
  nothing open.
* `Machine.reaches_shape` — the shape, said of the stacks, and the faults a step can meet.
-/

namespace Abacus

namespace Program

/-- The tokens of the program from an address on. -/
def view (p : Program) (a : Address) : List Lexeme :=
  Scan.lexemes (p.source a.source).bytes a.offset

section View

variable {p : Program} {a : Address} {l : Lexeme} {ls : List Lexeme}

theorem read_of_view (h : p.view a = l :: ls) :
    ∃ r, p.read a = some (l, r) ∧ p.view ⟨a.source, l.stop⟩ = ls := by
  rw [read_eq]
  exact Scan.read_of_lexemes_eq_cons h

theorem view_next (h : p.view a = l :: ls) : p.view ⟨a.source, l.stop⟩ = ls :=
  (read_of_view h).choose_spec.2

theorem close?_eq_closeOf : p.close? a = (Scan.closeOf 0 (p.view a)).map (·.1) := by
  rw [close?_eq]
  exact Scan.close?_eq _ _

/-- A listed token is read again from its first byte, with the same rest. -/
theorem view_of_eq_append {pre rest : List Lexeme} (h : p.view a = pre ++ l :: rest) :
    p.view ⟨a.source, l.start⟩ = l :: rest ∧ p.view ⟨a.source, l.stop⟩ = rest :=
  Scan.lexemes_of_eq_append h

end View

theorem build_of_load {sources : List Source} {p : Program} (hp : load sources = .ok p) :
    p.sources = sources ∧ Table.build sources = .ok p.table := by
  unfold load at hp
  obtain ⟨t, ht, rfl⟩ := Table.except_map_eq_ok.1 hp
  exact ⟨rfl, ht⟩

/-- **From a function's address the machine reads the `{` of its body, then a text that closes
one group.** -/
theorem view_of_find? {sources : List Source} {p : Program} (hp : load sources = .ok p)
    {name : Bytes} {a : Address} (h : p.table.find? name = some a) :
    ∃ o ls, p.view a = o :: ls ∧ o.word = openWord ∧ Scan.Closes 1 ls := by
  obtain ⟨hsrc, hbuild⟩ := build_of_load hp
  obtain ⟨o, inner, c, rest, hview, ho, hb, hc⟩ := Table.find?_body hbuild h
  refine ⟨o, inner ++ c :: rest, ?_, ho, c, rest, Scan.closeOf_balanced_close rest hb hc, trivial⟩
  rw [view, source, hsrc]
  exact hview

end Program

namespace Machine

section Read

variable {p : Program} {m : Machine} {l : Lexeme} {ls : List Lexeme}

/-- A step reads the token at the machine's address and acts on it from just after it. -/
theorem step_of_view_success (h : p.view m.pc = l :: ls) (hm : m.mode = .success) :
    m.step p =
      .ok ⟨l, succeed p (p.source m.pc.source) { m with pc := ⟨m.pc.source, l.stop⟩ } l⟩ := by
  obtain ⟨r, hr, -⟩ := Program.read_of_view h
  simp only [step, hr, hm]

theorem step_of_view_failed (h : p.view m.pc = l :: ls) (hm : m.mode = .failed) :
    m.step p =
      .ok ⟨l, recover p (p.source m.pc.source) { m with pc := ⟨m.pc.source, l.stop⟩ } l⟩ := by
  obtain ⟨r, hr, -⟩ := Program.read_of_view h
  simp only [step, hr, hm]

end Read

/-! ### The shape -/

/-- The calls in progress, innermost first, as a run leaves them. The first function's frame is
last, entered at depth 0 with nowhere to return to. Each other frame was entered deeper than the
one below it, and returns to an address from where the text closes the groups that its caller
has open. -/
def CallsFit (p : Program) : List Frame → Prop
  | [] => False
  | [f] => f.depth = 0 ∧ f.returnTo = none
  | f :: g :: fs => g.depth < f.depth ∧
      (∃ a, f.returnTo = some a ∧ Scan.Closes (f.depth - g.depth) (p.view a)) ∧
      CallsFit p (g :: fs)

/-- Where the machine reads, for the innermost call `f`. -/
inductive AtText (p : Program) (m : Machine) (f : Frame) : Prop
  /-- Right after the call: the next token is the `{` of the called body. -/
  | entry {o : Lexeme} {ls : List Lexeme} : m.depth = f.depth → m.mode = .success →
      p.table.find? f.name = some m.pc → p.view m.pc = o :: ls → o.word = openWord →
      Scan.Closes 1 ls → AtText p m f
  /-- Inside the body: the text closes every group the call has open. -/
  | inside : f.depth < m.depth → Scan.Closes (m.depth - f.depth) (p.view m.pc) → AtText p m f

/-- The shape of a running machine: one saved register per open group, frames that fit the
text, and a text from the next token that fits the innermost call. -/
structure Shaped (p : Program) (m : Machine) : Prop where
  snapshots_length : m.snapshots.length = m.depth
  calls : CallsFit p m.frames
  text : ∃ f fs, m.frames = f :: fs ∧ AtText p m f

/-- What a step from a shaped machine leaves. -/
inductive Settled (p : Program) (m : Machine) : Prop
  /-- A shaped machine, still running. -/
  | running : m.finished = false → Shaped p m → Settled p m
  /-- A finished machine, with no frame, no saved register and depth 0. -/
  | done : m.finished = true → m.frames = [] → m.snapshots = [] → m.depth = 0 → Settled p m

/-- The effects a step from a shaped machine can have: a settled machine, or the fault of a call
to a function that is not defined. -/
def Allowed (p : Program) : Except Fault Effect → Prop
  | .ok e => Settled p e.final
  | .error f => ∃ name offset file, f = .undefinedCall name offset file

section Frames

variable {p : Program} {f g : Frame} {fs : List Frame}

theorem callsFit_singleton : CallsFit p [f] ↔ f.depth = 0 ∧ f.returnTo = none := by
  rw [CallsFit]

theorem callsFit_cons_cons : CallsFit p (f :: g :: fs) ↔ g.depth < f.depth ∧
    (∃ a, f.returnTo = some a ∧ Scan.Closes (f.depth - g.depth) (p.view a)) ∧
    CallsFit p (g :: fs) := by
  rw [CallsFit]

/-- Only the first function's frame has nowhere to return to. -/
theorem CallsFit.eq_singleton (h : CallsFit p (f :: fs)) (hr : f.returnTo = none) : fs = [] := by
  cases fs with
  | nil => rfl
  | cons g gs =>
    obtain ⟨-, ⟨a, ha, -⟩, -⟩ := callsFit_cons_cons.1 h
    rw [hr] at ha
    cases ha

/-- A frame with somewhere to return to has its caller's frame below it. -/
theorem CallsFit.exists_caller {a : Address} (h : CallsFit p (f :: fs)) (hr : f.returnTo = some a) :
    ∃ g gs, fs = g :: gs := by
  cases fs with
  | nil =>
    have hnone := (callsFit_singleton.1 h).2
    rw [hr] at hnone
    cases hnone
  | cons g gs => exact ⟨g, gs, rfl⟩

/-- Every frame below the innermost one was entered less deep. -/
theorem CallsFit.depth_lt : ∀ {f : Frame} {fs : List Frame}, CallsFit p (f :: fs) →
    ∀ g ∈ fs, g.depth < f.depth
  | _, [], _ => by simp
  | f, g :: gs, h => by
    obtain ⟨hgf, -, hg⟩ := callsFit_cons_cons.1 h
    intro x hx
    rcases List.mem_cons.1 hx with rfl | hx
    · exact hgf
    · exact Nat.lt_trans (CallsFit.depth_lt hg x hx) hgf

/-- Down the chain, the frames were entered ever less deep. -/
theorem CallsFit.pairwise : ∀ {fs : List Frame}, CallsFit p fs →
    fs.Pairwise (fun f g => g.depth < f.depth)
  | [], h => h.elim
  | [_], _ => List.pairwise_singleton _ _
  | _ :: _ :: _, h => List.pairwise_cons.2 ⟨h.depth_lt, (callsFit_cons_cons.1 h).2.2.pairwise⟩

/-- The bottom frame is the first function's: entered at depth 0, and the only one with nowhere
to return to. -/
theorem CallsFit.bottom : ∀ {fs : List Frame}, CallsFit p fs →
    ∃ f gs, fs = gs ++ [f] ∧ f.depth = 0 ∧ f.returnTo = none ∧ ∀ g ∈ gs, g.returnTo ≠ none
  | [], h => h.elim
  | [f], h => ⟨f, [], rfl, (callsFit_singleton.1 h).1, (callsFit_singleton.1 h).2, by simp⟩
  | f :: _ :: _, h => by
    obtain ⟨-, ⟨a, ha, -⟩, hg⟩ := callsFit_cons_cons.1 h
    obtain ⟨b, gs, heq, hb0, hbr, hgs⟩ := CallsFit.bottom hg
    refine ⟨b, f :: gs, by rw [heq, List.cons_append], hb0, hbr, ?_⟩
    intro x hx
    rcases List.mem_cons.1 hx with rfl | hx
    · simp [ha]
    · exact hgs x hx

end Frames

section Text

variable {p : Program} {m : Machine} {f : Frame}

theorem AtText.depth_le (h : AtText p m f) : f.depth ≤ m.depth := by
  cases h with
  | entry hd _ _ _ _ _ => exact Nat.le_of_eq hd.symm
  | inside hlt _ => exact Nat.le_of_lt hlt

/-- At the depth of the innermost call, the machine is right after the call: the next token is
the `{` of the called body. -/
theorem AtText.entry_of_depth_eq (h : AtText p m f) (hd : f.depth = m.depth) :
    m.mode = .success ∧ p.table.find? f.name = some m.pc ∧
      ∃ o ls, p.view m.pc = o :: ls ∧ o.word = openWord := by
  cases h with
  | entry _ hm ha hv ho _ => exact ⟨hm, ha, _, _, hv, ho⟩
  | inside hlt _ => omega

end Text

section Steps

variable {sources : List Source} {p : Program} {m m' : Machine} {f : Frame} {l : Lexeme}
  {ls : List Lexeme}

/-- Unless the machine is about to enter a called body, it reads inside the innermost one. -/
theorem AtText.inside_of (h : AtText p m f) (hv : p.view m.pc = l :: ls)
    (hn : ¬(m.mode = .success ∧ l.word = openWord)) :
    f.depth < m.depth ∧ Scan.Closes (m.depth - f.depth) (l :: ls) := by
  cases h with
  | entry _ hm _ ho hw _ =>
    rw [hv] at ho
    obtain ⟨rfl, -⟩ := List.cons.inj ho
    exact absurd ⟨hm, hw⟩ hn
  | inside hlt hcl => exact ⟨hlt, hv ▸ hcl⟩

theorem Shaped.view_cons (h : Shaped p m) : ∃ l ls, p.view m.pc = l :: ls := by
  obtain ⟨f, fs, -, hat⟩ := h.text
  cases hat with
  | entry _ _ _ ho _ _ => exact ⟨_, _, ho⟩
  | inside hlt hcl =>
    exact List.exists_cons_of_ne_nil (Scan.ne_nil_of_closes (Nat.sub_pos_of_lt hlt) hcl)

/-- In the failed mode the machine is inside a body, with a group open. -/
theorem Shaped.snapshots_ne_nil_of_failed (h : Shaped p m) (hm : m.mode = .failed) :
    m.snapshots ≠ [] := by
  obtain ⟨l, ls, hv⟩ := h.view_cons
  obtain ⟨f, fs, -, hat⟩ := h.text
  obtain ⟨hlt, -⟩ := hat.inside_of hv (fun h => by rw [hm] at h; cases h.1)
  rw [ne_eq, ← List.length_eq_zero_iff, h.snapshots_length]
  omega

/-- A token that is not a brace keeps the shape, whatever it does to the register and the mode. -/
theorem Shaped.pass (h : Shaped p m) (hv : p.view m.pc = l :: ls) (ho : l.word ≠ openWord)
    (hc : l.word ≠ closeWord) (hd : m'.depth = m.depth) (hs : m'.snapshots = m.snapshots)
    (hf : m'.frames = m.frames) (hpc : m'.pc = ⟨m.pc.source, l.stop⟩) : Shaped p m' := by
  obtain ⟨f, fs, hfs, hat⟩ := h.text
  obtain ⟨hlt, hcl⟩ := hat.inside_of hv (fun h => ho h.2)
  obtain ⟨-, -, hrest⟩ := Program.read_of_view hv
  refine ⟨by rw [hs, hd]; exact h.snapshots_length, by rw [hf]; exact h.calls,
    f, fs, by rw [hf]; exact hfs, .inside (by omega) ?_⟩
  rw [hd, hpc, hrest]
  exact (Scan.closes_cons_other ho hc).1 hcl

/-- A token whose symbol is no brace, passed with the groups and calls kept, leaves a running
shaped machine. -/
theorem Shaped.pass_settled {o : Option Symbol} (h : Shaped p m) (hv : p.view m.pc = l :: ls)
    (hw : Symbol.ofWord? l.word = o) (ho : o ≠ some .openBrace) (hc : o ≠ some .closeBrace)
    (hfin : m'.finished = false) (hd : m'.depth = m.depth) (hs : m'.snapshots = m.snapshots)
    (hf : m'.frames = m.frames) (hpc : m'.pc = ⟨m.pc.source, l.stop⟩) : Settled p m' := by
  obtain ⟨hno, hnc⟩ := Scan.ne_braces_of_ofWord? hw ho hc
  exact .running hfin (h.pass hv hno hnc hd hs hf hpc)

/-- A `{` read in the success mode enters a group: one more group for the text to close. -/
theorem Shaped.enter (h : Shaped p m) (hv : p.view m.pc = l :: ls) (ho : l.word = openWord)
    (hd : m'.depth = m.depth + 1) (hs : m'.snapshots = m.register :: m.snapshots)
    (hf : m'.frames = m.frames) (hpc : m'.pc = ⟨m.pc.source, l.stop⟩) : Shaped p m' := by
  obtain ⟨f, fs, hfs, hat⟩ := h.text
  obtain ⟨-, -, hrest⟩ := Program.read_of_view hv
  -- entering the body of a call, or a group inside it
  have hcl : f.depth < m'.depth ∧ Scan.Closes (m'.depth - f.depth) ls := by
    cases hat with
    | entry hdf _ _ hos _ hcl =>
      rw [hv] at hos
      obtain ⟨-, rfl⟩ := List.cons.inj hos
      refine ⟨by omega, ?_⟩
      rw [hd, hdf, Nat.add_sub_cancel_left]
      exact hcl
    | inside hlt hcl =>
      refine ⟨by omega, ?_⟩
      rw [hd, Nat.sub_add_comm (Nat.le_of_lt hlt)]
      exact Scan.closes_of_cons_open ho (Nat.sub_pos_of_lt hlt) (hv ▸ hcl)
  refine ⟨?_, by rw [hf]; exact h.calls, f, fs, by rw [hf]; exact hfs, .inside hcl.1 ?_⟩
  · rw [hs, hd, List.length_cons, h.snapshots_length]
  · rw [hpc, hrest]
    exact hcl.2

/-- A `|` read in the success mode finds the `}` of its group, and landing on it keeps the
shape. -/
theorem Shaped.skip (h : Shaped p m) (hv : p.view m.pc = l :: ls) (ho : l.word ≠ openWord)
    (hc : l.word ≠ closeWord) :
    ∃ c, p.close? ⟨m.pc.source, l.stop⟩ = some c ∧
      ∀ m' : Machine, m'.depth = m.depth → m'.snapshots = m.snapshots → m'.frames = m.frames →
        m'.pc = ⟨m.pc.source, c.start⟩ → Shaped p m' := by
  obtain ⟨f, fs, hfs, hat⟩ := h.text
  obtain ⟨hlt, hcl⟩ := hat.inside_of hv (fun h => ho h.2)
  obtain ⟨-, -, hrest⟩ := Program.read_of_view hv
  rw [Scan.closes_cons_other ho hc] at hcl
  have hk : m.depth - f.depth = m.depth - f.depth - 1 + 1 := by omega
  rw [hk] at hcl
  obtain ⟨c, rest, hcr, hrest'⟩ := hcl
  obtain ⟨pre, hls, -, hcw⟩ := Scan.closeOf_eq_some_iff.1 hcr
  have hvc : p.view ⟨m.pc.source, c.start⟩ = c :: rest :=
    (Program.view_of_eq_append (hrest.trans hls)).1
  refine ⟨c, by rw [Program.close?_eq_closeOf, hrest, hcr]; rfl, fun m' hd hs hf hpc => ?_⟩
  refine ⟨by rw [hs, hd]; exact h.snapshots_length, by rw [hf]; exact h.calls,
    f, fs, by rw [hf]; exact hfs, .inside (by omega) ?_⟩
  rw [hd, hk, hpc, hvc]
  exact Scan.closes_cons_close hcw hrest'

/-- A `{` read in the failed mode finds the `}` of its group, and passing over it keeps the
shape. -/
theorem Shaped.skipGroup (h : Shaped p m) (hv : p.view m.pc = l :: ls) (hm : m.mode = .failed)
    (ho : l.word = openWord) :
    ∃ c, p.close? ⟨m.pc.source, l.stop⟩ = some c ∧
      ∀ m' : Machine, m'.depth = m.depth → m'.snapshots = m.snapshots → m'.frames = m.frames →
        m'.pc = ⟨m.pc.source, c.stop⟩ → Shaped p m' := by
  obtain ⟨f, fs, hfs, hat⟩ := h.text
  obtain ⟨hlt, hcl⟩ := hat.inside_of hv (fun h => by rw [hm] at h; cases h.1)
  obtain ⟨-, -, hrest⟩ := Program.read_of_view hv
  obtain ⟨c, rest, hcr, hrest'⟩ := Scan.closes_of_cons_open ho (Nat.sub_pos_of_lt hlt) hcl
  obtain ⟨pre, hls, -, -⟩ := Scan.closeOf_eq_some_iff.1 hcr
  have hvc : p.view ⟨m.pc.source, c.stop⟩ = rest :=
    (Program.view_of_eq_append (hrest.trans hls)).2
  refine ⟨c, by rw [Program.close?_eq_closeOf, hrest, hcr]; rfl, fun m' hd hs hf hpc => ?_⟩
  refine ⟨by rw [hs, hd]; exact h.snapshots_length, by rw [hf]; exact h.calls,
    f, fs, by rw [hf]; exact hfs, .inside (by omega) ?_⟩
  rw [hd, hpc, hvc]
  exact hrest'

/-- A call pushes a frame that returns to the token after it, and lands on the `{` of the called
body. -/
theorem Shaped.call (hp : Program.load sources = .ok p) (h : Shaped p m)
    (hv : p.view m.pc = l :: ls) (ho : l.word ≠ openWord) (hc : l.word ≠ closeWord)
    {a : Address} (ha : p.table.find? l.word = some a) (hd : m'.depth = m.depth)
    (hs : m'.snapshots = m.snapshots) (hm : m'.mode = .success)
    (hf : m'.frames = ⟨m.depth, some ⟨m.pc.source, l.stop⟩, l.word⟩ :: m.frames)
    (hpc : m'.pc = a) : Shaped p m' := by
  obtain ⟨f, fs, hfs, hat⟩ := h.text
  obtain ⟨hlt, hcl⟩ := hat.inside_of hv (fun h => ho h.2)
  obtain ⟨-, -, hrest⟩ := Program.read_of_view hv
  obtain ⟨o, os, hvo, hwo, hos⟩ := Program.view_of_find? hp ha
  refine ⟨by rw [hs, hd]; exact h.snapshots_length, ?_, _, _, hf,
    .entry hd hm (by rw [hpc]; exact ha) (by rw [hpc]; exact hvo) hwo hos⟩
  rw [hf, hfs, callsFit_cons_cons]
  refine ⟨hlt, ⟨_, rfl, ?_⟩, hfs ▸ h.calls⟩
  rw [hrest]
  exact (Scan.closes_cons_other ho hc).1 hcl

/-- A `}` closes the innermost group. When that is the group of the innermost call's body, the
call returns to its address, or, for the first function, the run finishes with nothing open. -/
theorem Shaped.close_allowed (h : Shaped p m) (hv : p.view m.pc = l :: ls)
    (hc : l.word = closeWord) (hfin : m.finished = false) (src : Source) :
    Allowed p (close src { m with pc := ⟨m.pc.source, l.stop⟩ } l) := by
  obtain ⟨f, fs, hfs, hat⟩ := h.text
  obtain ⟨hlt, hcl⟩ :=
    hat.inside_of hv (fun h => Scan.openWord_ne_closeWord (h.2.symm.trans hc))
  obtain ⟨-, -, hrest⟩ := Program.read_of_view hv
  have hne : m.snapshots ≠ [] := by
    rw [ne_eq, ← List.length_eq_zero_iff, h.snapshots_length]
    omega
  obtain ⟨s, saved, hss⟩ := List.exists_cons_of_ne_nil hne
  have hsaved : saved.length = m.depth - 1 := by
    have hlen := h.snapshots_length
    rw [hss, List.length_cons] at hlen
    omega
  -- the text after the `}` closes one group fewer
  have hls : Scan.Closes (m.depth - 1 - f.depth) ls := by
    have hk : m.depth - f.depth = m.depth - 1 - f.depth + 1 := by omega
    exact Scan.closes_of_cons_close hc (hk ▸ hcl)
  simp only [close, hss, hfs]
  by_cases hd : m.depth - 1 = f.depth
  · -- the body of the innermost call closes
    simp only [hd, ne_eq, not_true_eq_false, if_false]
    cases hret : f.returnTo with
    | none =>
      have hfs' : fs = [] := (hfs ▸ h.calls).eq_singleton hret
      have hf0 : f.depth = 0 := (callsFit_singleton.1 (hfs' ▸ hfs ▸ h.calls)).1
      have hsaved' : saved = [] := List.eq_nil_of_length_eq_zero (by omega)
      exact .done rfl hfs' hsaved' hf0
    | some a =>
      -- a called function returns: its caller's frame is below, and fits the return address
      obtain ⟨g, gs, rfl⟩ := (hfs ▸ h.calls).exists_caller hret
      obtain ⟨hgf, ⟨a', ha', hcla⟩, hgs⟩ := callsFit_cons_cons.1 (hfs ▸ h.calls)
      rw [hret] at ha'
      cases ha'
      exact .running hfin ⟨show saved.length = f.depth by omega, hgs, g, gs, rfl, .inside hgf hcla⟩
  · -- a group inside the body closes
    simp only [hd, ne_eq, not_false_eq_true, if_true]
    have hcl' : Scan.Closes (m.depth - 1 - f.depth) (p.view ⟨m.pc.source, l.stop⟩) := by
      rw [hrest]
      exact hls
    exact .running hfin
      ⟨hsaved, hfs ▸ h.calls, f, fs, rfl, .inside (show f.depth < m.depth - 1 by omega) hcl'⟩

theorem Shaped.succeed_allowed (hp : Program.load sources = .ok p) (h : Shaped p m)
    (hv : p.view m.pc = l :: ls) (hm : m.mode = .success) (hfin : m.finished = false)
    (src : Source) : Allowed p (succeed p src { m with pc := ⟨m.pc.source, l.stop⟩ } l) := by
  unfold succeed
  split
  next hw => exact h.pass_settled hv hw (by simp) (by simp) hfin rfl rfl rfl rfl
  next hw => split <;> exact h.pass_settled hv hw (by simp) (by simp) hfin rfl rfl rfl rfl
  next hw => exact .running hfin (h.enter hv (Scan.ofWord?_eq_openBrace.1 hw) rfl rfl rfl rfl)
  next hw => exact h.close_allowed hv (Scan.ofWord?_eq_closeBrace.1 hw) hfin src
  next hw =>
    obtain ⟨ho, hc⟩ := Scan.ne_braces_of_ofWord? hw (by simp) (by simp)
    obtain ⟨c, hcl, hskip⟩ := h.skip hv ho hc
    split
    next hnone => exact absurd (hcl.symm.trans hnone) (by simp)
    next c' hc' =>
      obtain rfl : c = c' := Option.some.inj (hcl.symm.trans hc')
      exact .running hfin (hskip _ rfl rfl rfl rfl)
  next hw => exact h.pass_settled hv hw (by simp) (by simp) hfin rfl rfl rfl rfl
  next hw => exact h.pass_settled hv hw (by simp) (by simp) hfin rfl rfl rfl rfl
  next hw => exact h.pass_settled hv hw (by simp) (by simp) hfin rfl rfl rfl rfl
  next _ _ _ hno hnc _ _ _ _ =>
    -- any other token calls a function
    have ho : l.word ≠ openWord := fun hw => hno (Scan.ofWord?_eq_openBrace.2 hw)
    have hc : l.word ≠ closeWord := fun hw => hnc (Scan.ofWord?_eq_closeBrace.2 hw)
    split
    next => exact ⟨_, _, _, rfl⟩
    next a ha => exact .running hfin (h.call hp hv ho hc ha rfl rfl hm rfl rfl)

/-- Every token read in the failed mode has an allowed effect. -/
theorem Shaped.recover_allowed (h : Shaped p m) (hv : p.view m.pc = l :: ls)
    (hm : m.mode = .failed) (hfin : m.finished = false) (src : Source) :
    Allowed p (recover p src { m with pc := ⟨m.pc.source, l.stop⟩ } l) := by
  unfold recover
  split
  next hw =>
    obtain ⟨c, hcl, hskip⟩ := h.skipGroup hv hm (Scan.ofWord?_eq_openBrace.1 hw)
    split
    next hnone => exact absurd (hcl.symm.trans hnone) (by simp)
    next c' hc' =>
      obtain rfl : c = c' := Option.some.inj (hcl.symm.trans hc')
      exact .running hfin (hskip _ rfl rfl rfl rfl)
  next hw => exact h.close_allowed hv (Scan.ofWord?_eq_closeBrace.1 hw) hfin src
  next hw =>
    split
    next hnil => exact absurd hnil (h.snapshots_ne_nil_of_failed hm)
    next => exact h.pass_settled hv hw (by simp) (by simp) hfin rfl rfl rfl rfl
  next hno hnc _ =>
    have ho : l.word ≠ openWord := fun hw => hno (Scan.ofWord?_eq_openBrace.2 hw)
    have hc : l.word ≠ closeWord := fun hw => hnc (Scan.ofWord?_eq_closeBrace.2 hw)
    exact .running hfin (h.pass hv ho hc rfl rfl rfl rfl)

/-- **A step from a shaped machine that is still running reads a token, and its effect is
allowed.** -/
theorem Shaped.step_allowed (hp : Program.load sources = .ok p) (h : Shaped p m)
    (hfin : m.finished = false) : ∃ st, m.step p = .ok st ∧ Allowed p st.effect := by
  obtain ⟨l, ls, hv⟩ := h.view_cons
  cases hm : m.mode with
  | success => exact ⟨_, step_of_view_success hv hm, h.succeed_allowed hp hv hm hfin _⟩
  | failed => exact ⟨_, step_of_view_failed hv hm, h.recover_allowed hv hm hfin _⟩

end Steps

/-! ### Runs -/

/-- The machines a run of function `entry` from register `r` passes through: the machine it
starts with, then the machine after each step that meets no fault, while the run is not
finished. -/
inductive Reaches (p : Program) (entry : Bytes) (r : Nat) : Machine → Prop
  | start {m : Machine} {e : Event} : start p entry r = .ok (m, e) → Reaches p entry r m
  | step {m : Machine} {st : Step} {e : Effect} : Reaches p entry r m → m.finished = false →
      m.step p = .ok st → st.effect = .ok e → Reaches p entry r e.final

section Runs

variable {sources : List Source} {p : Program} {entry : Bytes} {r : Nat} {m : Machine}

theorem settled_start {e : Event} (hp : Program.load sources = .ok p)
    (h : start p entry r = .ok (m, e)) : Settled p m := by
  unfold start at h
  split at h
  next => cases h
  next a ha =>
    cases h
    obtain ⟨o, ls, hv, ho, hcl⟩ := Program.view_of_find? hp ha
    exact .running rfl
      ⟨rfl, callsFit_singleton.2 ⟨rfl, rfl⟩, _, _, rfl, .entry rfl rfl ha hv ho hcl⟩

/-- **Every machine a run passes through is shaped, or finished with nothing open.** The
induction is on the run; `Shaped.step_allowed` carries the shape over each step. -/
theorem settled_of_reaches (hp : Program.load sources = .ok p) (h : Reaches p entry r m) :
    Settled p m := by
  induction h with
  | start hs => exact settled_start hp hs
  | step _ hfin hst he ih =>
    cases ih with
    | running _ hsh =>
      obtain ⟨st', hst', hallowed⟩ := hsh.step_allowed hp hfin
      rw [hst] at hst'
      cases hst'
      rw [he] at hallowed
      exact hallowed
    | done hdone =>
      rw [hdone] at hfin
      cases hfin

/-- **The shape of a run.** For a program whose table was built, every machine a run passes
through, while it is not finished, keeps one saved register per open group; its bottom frame is
the first function's, entered at depth 0 and the only one with nowhere to return to; its frames
were entered ever deeper from the bottom up, the innermost no deeper than the machine is, and
as deep only right after a call, before the `{` of the called body. Its next step reads a token,
and meets no fault but a call of a function that is not defined. When the run finishes, no
frame, no saved register and no group are left. -/
theorem reaches_shape (hp : Program.load sources = .ok p) (h : Reaches p entry r m) :
    (m.finished = false →
      m.snapshots.length = m.depth ∧
      (∃ f fs, m.frames = fs ++ [f] ∧ f.depth = 0 ∧ f.returnTo = none ∧
        ∀ g ∈ fs, g.returnTo ≠ none) ∧
      (m.frames.map (·.depth)).Pairwise (· > ·) ∧
      (∃ f fs, m.frames = f :: fs ∧ f.depth ≤ m.depth ∧
        (f.depth = m.depth → m.mode = .success ∧ p.table.find? f.name = some m.pc ∧
          ∃ o ls, p.view m.pc = o :: ls ∧ o.word = openWord)) ∧
      ∃ st, m.step p = .ok st ∧
        ∀ fault, st.effect = .error fault →
          ∃ name offset file, fault = .undefinedCall name offset file) ∧
    (m.finished = true → m.frames = [] ∧ m.snapshots = [] ∧ m.depth = 0) := by
  cases settled_of_reaches hp h with
  | running hfin hsh =>
    refine ⟨fun _ => ⟨hsh.snapshots_length, hsh.calls.bottom, ?_, ?_, ?_⟩, fun hdone => ?_⟩
    · exact List.pairwise_map.2 hsh.calls.pairwise
    · obtain ⟨f, fs, hfs, hat⟩ := hsh.text
      exact ⟨f, fs, hfs, hat.depth_le, hat.entry_of_depth_eq⟩
    · obtain ⟨st, hst, hallowed⟩ := hsh.step_allowed hp hfin
      refine ⟨st, hst, fun fault hfault => ?_⟩
      rw [hfault] at hallowed
      exact hallowed
    · rw [hfin] at hdone
      cases hdone
  | done hdone hf hs hd =>
    refine ⟨fun hfin => ?_, fun _ => ⟨hf, hs, hd⟩⟩
    rw [hdone] at hfin
    cases hfin

/-- The one source `m { + }`: function `m` adds one to the register. -/
def sampleSources : List Source := [⟨"<string>", [0x6D, 0x20, 0x7B, 0x20, 0x2B, 0x20, 0x7D]⟩]

/-- The program of `sampleSources`, with `m` at offset 2 of source 0. -/
def sampleProgram : Program := ⟨sampleSources, ⟨[([0x6D], ⟨0, 2⟩)]⟩, _, rfl⟩

theorem load_sampleSources : Program.load sampleSources = .ok sampleProgram := by
  have h : (Table.build sampleSources).toOption = some ⟨[([0x6D], ⟨0, 2⟩)]⟩ := by decide +kernel
  unfold Program.load
  cases hb : Table.build sampleSources with
  | error f =>
    rw [hb] at h
    cases h
  | ok t =>
    rw [hb] at h
    cases h
    rfl

theorem reaches_shape_sample :
    Program.load sampleSources = .ok sampleProgram ∧
    Reaches sampleProgram [0x6D] 0 ⟨0, .success, 0, [], [⟨0, none, [0x6D]⟩], false, none, ⟨0, 2⟩⟩ ∧
    ∃ st, Machine.step sampleProgram
        ⟨0, .success, 0, [], [⟨0, none, [0x6D]⟩], false, none, ⟨0, 2⟩⟩ = .ok st ∧
      ∀ fault, st.effect = .error fault →
        ∃ name offset file, fault = .undefinedCall name offset file :=
  have hp := load_sampleSources
  have h : Reaches sampleProgram [0x6D] 0
      ⟨0, .success, 0, [], [⟨0, none, [0x6D]⟩], false, none, ⟨0, 2⟩⟩ := .start rfl
  ⟨hp, h, ((reaches_shape hp h).1 rfl).2.2.2.2⟩

end Runs

end Machine

end Abacus
