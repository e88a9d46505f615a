import Abacus.Proofs.Simulation

/-!
# Runs agree with the rules

A run of a function on a session that shows its displays is what the rules of
`Abacus.Semantics.BigStep` say of the function's body, read as a tree from the register the run
starts with. Both ways:

* a derivation for the body drives the machine to its end: with enough fuel, and any more, the
  run finishes with the derived register, or with no value when the body fails, or stops at the
  call of a function that is not defined; what it shows is the derived output;
* a run that does not run out of fuel ends as a derivation says. So when no derivation exists,
  every run runs out of fuel: the rules have no result exactly for the runs that never end.

The converse direction cannot follow a derivation, since there is none yet: it is proved by strong
induction on a budget of steps. Within `N` steps from the print of a piece, either the machine
has taken all `N` steps and is still going, or a derivation for the piece exists. A call or a
nested group takes at least one step before its inside, and an item that ends with a register
at least one step, so each piece is settled from the budget left after the steps before it.

## Main definitions

* `Machine.Busy` — the machine takes `N` steps and has not finished.
* `Ends` — how a run ends when the body ends with a result.
* `Machine.Halts` — `K` steps from the start end the run.

## Main statements

* `Machine.runs_or_busy` — within any budget, a derivation exists or the machine is busy.
* `Session.run_agrees_with_rules` — runs agree with the rules.
-/

namespace Abacus

/-- How a run ends when the body of its function ends with result `r`. -/
inductive Ends : Result → Outcome → Prop
  /-- The body ends with the register: the run finishes with it. -/
  | ok (n : Nat) : Ends (.ok n) (.done (some n))
  /-- The body fails: the run finishes with no value. -/
  | fail : Ends .fail (.done none)
  /-- A call of a function that is not defined stops the run. -/
  | undefined (name : Bytes) (offset : Nat) (file : String) :
      Ends (.undefined name) (.stopped (.undefinedCall name offset file))

namespace Session

theorem load_ok {sources : List Source} {debug : Bool} {s : Session}
    (h : Session.load sources debug = .ok s) :
    Program.load sources = .ok s.program ∧ s.debug = debug ∧ s.level = 0 := by
  unfold Session.load at h
  cases hp : Program.load sources with
  | error f =>
    rw [hp] at h
    cases h
  | ok p =>
    rw [hp] at h
    cases h
    exact ⟨rfl, rfl, rfl⟩

/-- A run that opened no trace reports what it showed, in order, and no trace. -/
theorem report_quiet (o : Outcome) (texts : List Text) :
    report o ⟨texts.reverse ++ [], none⟩ = ⟨o, texts.flatten, none⟩ := by
  simp [report, Log.shown, Log.traced]

/-- On a session with no trace, a run that starts is its loop from the machine it starts with. -/
theorem run_report {s : Session} {entry : Bytes} {r : Nat} {m₀ : Machine} {ev : Event}
    (hl : s.level = 0) (hst : Machine.start s.program entry r = .ok (m₀, ev)) (fuel : Nat) :
    (s.run entry r fuel).1 =
      report (s.loop fuel m₀ ⟨[], none⟩).1 (s.loop fuel m₀ ⟨[], none⟩).2.2 := by
  unfold run
  simp [Int.not_lt.2 (Int.natCast_nonneg r), hst, hl, write_zero, Log.empty]

end Session

namespace Machine

/-- From `m` the machine takes `N` steps that meet no fault, and has not finished. -/
def Busy (p : Program) (m : Machine) (N : Nat) : Prop :=
  ∃ texts m', Exec p m N texts m' ∧ m'.finished = false

section Busy

variable {p : Program} {m m₁ : Machine} {k N : Nat} {texts : List Text}

theorem Busy.prepend (h₁ : Exec p m k texts m₁) (hk : k ≤ N) (h : Busy p m₁ (N - k)) :
    Busy p m N := by
  obtain ⟨t, m', h₂, hf⟩ := h
  have hrun := h₁.trans h₂
  rw [Nat.add_sub_cancel' hk] at hrun
  exact ⟨_, m', hrun, hf⟩

/-- After `k > 0` steps to `m₁`, what holds of `m₁` within every smaller budget holds of `m`
within `N`: if `N ≤ k` the machine is still busy after `N` steps, and otherwise `m₁` has
`N - k` steps left. -/
theorem Exec.or_busy {P : Prop} (h₁ : Exec p m k texts m₁) (hf : m₁.finished = false)
    (hk : 0 < k) (ih : ∀ M < N, P ∨ Busy p m₁ M) : P ∨ Busy p m N := by
  by_cases hN : N ≤ k
  · exact .inr (h₁.cut hf N hN)
  · rcases ih (N - k) (by omega) with hP | hbusy
    · exact .inl hP
    · exact .inr (Busy.prepend h₁ (by omega) hbusy)

end Busy

/-! ### A derivation, or a machine still busy -/

/-- Within `N` steps from the print of any item, a derivation for the item exists or the machine
is still busy. -/
def ItemRuns (p : Program) (N : Nat) : Prop :=
  ∀ {chain : List Bytes} {i : Item} {m : Machine} {rest : List Lexeme}, i.Valid →
    Inside p chain m i.words rest → m.mode = .success →
    (∃ r out, RunItem p.body? chain m.register i r out) ∨ Busy p m N

/-- The same for alternatives. -/
def SeqRuns (p : Program) (N : Nat) : Prop :=
  ∀ {chain : List Bytes} {is : List Item} {m : Machine} {rest : List Lexeme}, ValidSeq is →
    Inside p chain m (seqWords is) rest → m.mode = .success →
    (∃ r out, RunSeq p.body? chain m.register is r out) ∨ Busy p m N

/-- The same for the alternatives of a group, entered with the register saved. -/
def AltsRuns (p : Program) (N : Nat) : Prop :=
  ∀ {chain : List Bytes} {alts : List (List Item)} {m : Machine} {c : Lexeme}
    {rest : List Lexeme}, ValidAlts alts → Inside p chain m (altsWords alts) (c :: rest) →
    c.word = closeWord → m.mode = .success → m.snapshots.head? = some m.register →
    (∃ r out, RunGroup p.body? chain m.register alts r out) ∨ Busy p m N

section Budget

variable {sources : List Source} {p : Program} {N : Nat}

/-- A group entered in `k > 0` steps is settled from the budget left after them. -/
theorem Enters.or_busy {chain : List Bytes} {alts : List (List Item)} {m m₁ : Machine} {k : Nat}
    {c : Lexeme} {rest : List Lexeme} (he : Enters p chain alts m k m₁ c rest) (hk : 0 < k)
    (hvalid : ValidAlts alts) (ih : ∀ M < N, AltsRuns p M) :
    (∃ r out, RunGroup p.body? chain m.register alts r out) ∨ Busy p m N := by
  apply he.exec.or_busy he.inside.finished hk
  intro M hM
  have h := ih M hM hvalid he.inside he.closeWord he.mode (by rw [he.saved, he.register])
  rwa [he.register] at h

theorem item_runs (hp : Program.load sources = .ok p) (ih : ∀ M < N, AltsRuns p M) :
    ItemRuns p N := by
  intro chain i m rest hvalid h hm
  cases i with
  | plus => exact .inl ⟨_, _, .plus⟩
  | minus =>
    cases m.register with
    | zero => exact .inl ⟨_, _, .minusZero⟩
    | succ n => exact .inl ⟨_, _, .minusSucc⟩
  | query => exact .inl ⟨_, _, .query⟩
  | bang => exact .inl ⟨_, _, .bang⟩
  | atSign => exact .inl ⟨_, _, .atSign⟩
  | call f =>
    cases hb : p.body? f with
    | none => exact .inl ⟨_, _, .callUndefined hb⟩
    | some body =>
      -- the call and the body's `{` take two steps
      obtain ⟨hvalid', m₁, c, rest', he, -⟩ := enter_call hp h hm hvalid hb
      exact (he.or_busy (by decide) hvalid' ih).imp_left fun ⟨r, out, hg⟩ => ⟨r, out, .call hb hg⟩
  | group alts =>
    obtain ⟨m₁, c, he, -⟩ := enter_group h hm
    exact (he.or_busy Nat.one_pos hvalid ih).imp_left fun ⟨r, out, hg⟩ => ⟨r, out, .group hg⟩

theorem seq_runs (hp : Program.load sources = .ok p) (hitem : ItemRuns p N)
    (ih : ∀ M < N, SeqRuns p M) : SeqRuns p N := by
  intro chain is m rest hvalid h hm
  cases is with
  | nil => exact .inl ⟨_, _, .nil⟩
  | cons i is =>
    rw [seqWords_cons] at h
    obtain ⟨pre, hi, hpre⟩ := h.split
    rcases hitem hvalid.1 hi hm with ⟨r₁, out₁, hr₁⟩ | hbusy
    · cases r₁ with
      | ok v =>
        -- the item ends with the register after at least one step, and the rest runs from there
        obtain ⟨k₁, ⟨t₁, m₁, h₁, -, hmoved, hmode, hreg⟩, hk₁⟩ :=
          RunItem.lands hp hr₁ hvalid.1 hi hm rfl
        have hrest : (∃ r out, RunSeq p.body? chain v is r out) ∨ Busy p m N := by
          refine h₁.or_busy hmoved.finished (hk₁ rfl) fun M hM => ?_
          have hrest := ih M hM hvalid.2 (h.of_moved hmoved rfl hpre) hmode
          rwa [hreg] at hrest
        exact hrest.imp_left fun ⟨r, out, hs⟩ => ⟨r, _, .cons hr₁ hs⟩
      | fail => exact .inl ⟨_, _, .stop hr₁ rfl⟩
      | undefined f => exact .inl ⟨_, _, .stop hr₁ rfl⟩
    · exact .inr hbusy

theorem alts_runs (hp : Program.load sources = .ok p) (hseq : SeqRuns p N)
    (ih : ∀ M < N, AltsRuns p M) : AltsRuns p N := by
  intro chain alts m c rest hvalid h hc hm hhead
  cases alts with
  | nil => exact hvalid.elim
  | cons a as =>
    obtain ⟨pre, ha⟩ := h.alts_head
    rcases hseq hvalid.head ha hm with ⟨r₁, out₁, hs⟩ | hbusy
    · cases r₁ with
      | ok v => exact .inl ⟨_, _, .first hs⟩
      | undefined f => exact .inl ⟨_, _, .stuck hs⟩
      | fail =>
        cases as with
        | nil => exact .inl ⟨_, _, .next hs .nil⟩
        | cons b bs =>
          -- the `|` after the failed alternative goes back to the saved register
          obtain ⟨bl, pre', ha', hbl, hpre'⟩ := h.alts_cons
          obtain ⟨k₁, t₁, m₁, h₁, -, hmoved, hmode⟩ := RunSeq.lands hp hs hvalid.1 ha' hm rfl
          obtain ⟨m₂, h₂, hmoved₂, hin₂, hmode₂, hreg₂, hhead₂⟩ :=
            backtrack_next h hhead hmoved hmode hbl hpre'
          have hnext : (∃ r out, RunGroup p.body? chain m.register (b :: bs) r out) ∨
              Busy p m N := by
            refine (h₁.trans h₂).or_busy hmoved₂.finished (by omega) fun M hM => ?_
            have hnext := ih M hM hvalid.2 hin₂ hc hmode₂ (by rw [hhead₂, hreg₂])
            rwa [hreg₂] at hnext
          exact hnext.imp_left fun ⟨r, out, hg⟩ => ⟨r, _, .next hs hg⟩
    · exact .inr hbusy

/-- **Within any budget of steps, a derivation exists or the machine is still busy**, for every
item, alternative and group of a body. The induction is on the budget: a call or a nested group
is settled from the budget left once it is entered, the rest of an alternative from the budget
left after its first item, and the next alternatives of a group from the budget left after the
first failed. -/
theorem runs_or_busy (hp : Program.load sources = .ok p) (N : Nat) :
    ItemRuns p N ∧ SeqRuns p N ∧ AltsRuns p N := by
  induction N using Nat.strong_induction_on with
  | _ N ih =>
    have hitem : ItemRuns p N := item_runs hp fun M hM => (ih M hM).2.2
    have hseq : SeqRuns p N := seq_runs hp hitem fun M hM => (ih M hM).2.1
    exact ⟨hitem, hseq, alts_runs hp hseq fun M hM => (ih M hM).2.2⟩

end Budget

/-! ### The function a run starts with -/

/-- Machine `m` stands where a run whose body ends with `r` stops: finished with the register or
with no value, or at a step that meets the fault of a call of a function that is not defined. -/
def Stops (p : Program) (m : Machine) : Result → Prop
  | .ok v => m.finished = true ∧ m.result = some v
  | .fail => m.finished = true ∧ m.result = none
  | .undefined f => m.finished = false ∧
      ∃ st offset file, m.step p = .ok st ∧ st.effect = .error (.undefinedCall f offset file)

/-- `K` steps from `m` show `out` and stop the machine as a run whose body ends with `r`. -/
def Halts (p : Program) (m : Machine) (r : Result) (out : Text) (K : Nat) : Prop :=
  ∃ texts m', Exec p m K texts m' ∧ texts.flatten = out ∧ Stops p m' r

/-- From where the body's inside ends, one step closes the body and finishes the run, with the
register in the success mode and with no value in the failed mode. -/
def Finishes (p : Program) (m₁ : Machine) (mid : List Lexeme) : Prop :=
  ∀ m₂, Moved p m₁ m₂ mid → ∃ m₃, Exec p m₂ 1 [] m₃ ∧ m₃.finished = true ∧
    m₃.result = if m₂.mode = .success then some m₂.register else none

section Entry

variable {sources : List Source} {p : Program} {entry : Bytes} {r : Nat} {m₀ : Machine}
  {ev : Event}

theorem start_of_find? {a : Address} (ha : p.table.find? entry = some a) :
    Machine.start p entry r =
      .ok (⟨r, .success, 0, [], [⟨0, none, entry⟩], false, none, a⟩, .enter entry a r) := by
  unfold Machine.start
  rw [ha]

/-- **A run enters the body of its function at its `{`**, and the body's `}` finishes it. -/
theorem enter_entry (hp : Program.load sources = .ok p)
    (hst : Machine.start p entry r = .ok (m₀, ev)) :
    ∃ body, p.body? entry = some body ∧ ValidAlts body ∧
      ∃ m₁ c rest, Enters p [entry] body m₀ 1 m₁ c rest ∧ Finishes p m₁ (c :: rest) := by
  unfold Machine.start at hst
  cases ha : p.table.find? entry with
  | none =>
    rw [ha] at hst
    cases hst
  | some a =>
    rw [ha] at hst
    cases hst
    obtain ⟨body, o, pre, c, rest, hb, hv, ho, hpre, hc, hvalid⟩ := Program.body?_eq_some hp ha
    refine ⟨body, hb, hvalid, _, c, rest, ⟨exec_open rfl hv rfl ho,
      ⟨rfl, rfl, ⟨_, [], rfl, Nat.zero_lt_one⟩, pre, Program.view_next hv, hpre⟩, hc, rfl, rfl,
      rfl⟩, fun m₂ hmoved => ?_⟩
    -- the body's `}` closes back to the first frame, which returns nowhere
    have hd : m₂.depth - 1 = 0 := by
      rw [hmoved.depth]
      rfl
    exact ⟨_, exec_close_finish hmoved.finished hmoved.view hc hmoved.snapshots hmoved.frames hd
      rfl, rfl, rfl⟩

/-- **A run that follows a derivation for the body halts as the derivation says**, two steps
after the body's inside ends: the `{` before it and the `}` after it, or, at the call of a
function that is not defined, the step that meets the fault. -/
theorem Exec.halts_within {m₁ : Machine} {c : Lexeme} {rest : List Lexeme} {res : Result}
    {out : Text} {k : Nat} (h₁ : Exec p m₀ 1 [] m₁) (hfin : Finishes p m₁ (c :: rest))
    (h : Lands p m₁ (c :: rest) res out k) :
    ∃ K, K + res.isUndefined.toNat = k + 2 ∧ Halts p m₀ res out K := by
  obtain ⟨texts, m₂, h₂, rfl, hend⟩ := h
  cases res with
  | ok v =>
    obtain ⟨hmoved, hmode, hreg⟩ := hend
    obtain ⟨m₃, h₃, hfin₃, hres⟩ := hfin m₂ hmoved
    exact ⟨1 + k + 1, by simp [Result.isUndefined]; omega, [] ++ texts ++ [], m₃,
      (h₁.trans h₂).trans h₃, by simp, hfin₃, by rw [hres, if_pos hmode, hreg]⟩
  | fail =>
    obtain ⟨hmoved, hmode⟩ := hend
    obtain ⟨m₃, h₃, hfin₃, hres⟩ := hfin m₂ hmoved
    exact ⟨1 + k + 1, by simp [Result.isUndefined]; omega, [] ++ texts ++ [], m₃,
      (h₁.trans h₂).trans h₃, by simp, hfin₃, by rw [hres, hmode, if_neg (by decide)]⟩
  | undefined f =>
    exact ⟨1 + k, by simp [Result.isUndefined]; omega, [] ++ texts, m₂, h₁.trans h₂, by simp,
      hend⟩

/-- A run that follows a derivation for the body halts as the derivation says. -/
theorem Exec.halts {m₁ : Machine} {c : Lexeme} {rest : List Lexeme} {res : Result} {out : Text}
    {k : Nat} (h₁ : Exec p m₀ 1 [] m₁) (hfin : Finishes p m₁ (c :: rest))
    (h : Lands p m₁ (c :: rest) res out k) : ∃ K, Halts p m₀ res out K :=
  (h₁.halts_within hfin h).imp fun _ hK => hK.2

end Entry

/-! ### The loop of a run -/

section Loop

variable {s : Session} {m : Machine} {res : Result} {out : Text} {K F : Nat}

theorem Busy.loop (hl : s.level = 0) (hd : s.debug = true) (h : Busy s.program m F) :
    (s.loop F m ⟨[], none⟩).1 = .outOfFuel := by
  obtain ⟨texts, m', hrun, hf⟩ := h
  have hloop := Session.loop_exec hl hd hrun 0 ⟨[], none⟩
  rw [Nat.add_zero] at hloop
  rw [hloop, Session.loop_zero hf]

/-- Where a run stops, the loop ends as the body's result says, or, with no fuel left before the
fault of an undefined call, runs out of fuel. -/
theorem Stops.loop (hl : s.level = 0) (h : Stops s.program m res) (j : Nat) (log : Log) :
    (res.isUndefined = true ∧ j = 0 ∧ (s.loop j m log).1 = .outOfFuel) ∨
      ∃ o, Ends res o ∧ s.loop j m log = (o, m, log) := by
  cases res with
  | ok v => exact .inr ⟨_, .ok v, by rw [Session.loop_finished h.1, h.2]⟩
  | fail => exact .inr ⟨_, .fail, by rw [Session.loop_finished h.1, h.2]⟩
  | undefined f =>
    obtain ⟨hf, st, offset, file, hs, he⟩ := h
    cases j with
    | zero => exact .inl ⟨rfl, rfl, by rw [Session.loop_zero hf]⟩
    | succ j => exact .inr ⟨_, .undefined f offset file, Session.loop_fault hl hf hs he j log⟩

/-- **The loop of a run that halts in `K` steps**: with more fuel it reports the result and the
output of the run, and with less it runs out of fuel. -/
theorem Halts.loop (hl : s.level = 0) (hd : s.debug = true) (h : Halts s.program m res out K)
    (F : Nat) :
    (F ≤ K ∧ (s.loop F m ⟨[], none⟩).1 = .outOfFuel) ∨
      ∃ o, Ends res o ∧
        Session.report (s.loop F m ⟨[], none⟩).1 (s.loop F m ⟨[], none⟩).2.2 = ⟨o, out, none⟩ := by
  obtain ⟨texts, m', hrun, rfl, hstop⟩ := h
  rcases Nat.lt_or_ge F K with hF | hF
  · -- the fuel runs out before the run halts
    obtain ⟨t, m'', hcut, hf⟩ := hrun.cut_lt F hF
    exact .inl ⟨Nat.le_of_lt hF, Busy.loop hl hd ⟨t, m'', hcut, hf⟩⟩
  · obtain ⟨j, rfl⟩ := Nat.exists_eq_add_of_le hF
    rw [Session.loop_exec hl hd hrun j]
    rcases hstop.loop hl j ⟨texts.reverse ++ [], none⟩ with ⟨-, rfl, hout⟩ | ⟨o, ho, heq⟩
    · exact .inl ⟨Nat.le_refl _, hout⟩
    · exact .inr ⟨o, ho, by rw [heq, Session.report_quiet]⟩

/-- **With fuel for every step of a run that halts in `K` steps**, and one more for the fault of
an undefined call, the loop reports the result and the output of the run. -/
theorem Halts.loop_of_le (hl : s.level = 0) (hd : s.debug = true)
    (h : Halts s.program m res out K) (hF : K + res.isUndefined.toNat ≤ F) :
    ∃ o, Ends res o ∧
      Session.report (s.loop F m ⟨[], none⟩).1 (s.loop F m ⟨[], none⟩).2.2 = ⟨o, out, none⟩ := by
  obtain ⟨texts, m', hrun, rfl, hstop⟩ := h
  obtain ⟨j, rfl⟩ := Nat.exists_eq_add_of_le (Nat.le_trans (Nat.le_add_right K _) hF)
  rw [Session.loop_exec hl hd hrun j]
  rcases hstop.loop hl j ⟨texts.reverse ++ [], none⟩ with ⟨hu, rfl, -⟩ | ⟨o, ho, heq⟩
  · -- the fault of an undefined call needs a step more than the fuel gives
    rw [hu, Bool.toNat_true] at hF
    omega
  · exact ⟨o, ho, by rw [heq, Session.report_quiet]⟩

end Loop

end Machine

namespace Session

/-- **Runs agree with the rules.** Take a session on sources that load, showing its displays, and
a function of the program, run from any register `r`. Its body is a group. A derivation of the
rules for that group from `r`, with the function's name as the only call, gives the run's end:
with enough fuel, and any more, the run reports the derived result and output and no trace. And
every run that does not run out of fuel ends as some derivation says, with its output. -/
theorem run_agrees_with_rules {sources : List Source} {s : Session} {entry : Bytes}
    (hs : Session.load sources true = .ok s) (he : (s.program.table.find? entry).isSome)
    (r : Nat) :
    ∃ body, s.program.body? entry = some body ∧
      (∀ res out, RunGroup s.program.body? [entry] r body res out →
        ∃ fuel₀, ∀ fuel, fuel₀ ≤ fuel →
          ∃ o, Ends res o ∧ (s.run entry r fuel).1 = ⟨o, out, none⟩) ∧
      ∀ fuel, (s.run entry r fuel).1.outcome = .outOfFuel ∨
        ∃ res, RunGroup s.program.body? [entry] r body res (s.run entry r fuel).1.out ∧
          Ends res (s.run entry r fuel).1.outcome := by
  obtain ⟨hp, hd, hl⟩ := load_ok hs
  obtain ⟨a, ha⟩ := Option.isSome_iff_exists.1 he
  have hst := Machine.start_of_find? (r := r) ha
  obtain ⟨body, hb, hvalid, m₁, c, rest, hen, hfin⟩ := Machine.enter_entry hp hst
  -- a derivation, followed by the machine, halts the run
  have halts : ∀ res out, RunGroup s.program.body? [entry] r body res out →
      ∃ K, Machine.Halts s.program ⟨r, .success, 0, [], [⟨0, none, entry⟩], false, none, a⟩ res
        out K := by
    intro res out hg
    obtain ⟨k, hk⟩ := Machine.RunGroup.lands hp hg hvalid hen.inside hen.closeWord hen.mode
      hen.register hen.saved
    exact hen.exec.halts hfin hk
  refine ⟨body, hb, fun res out hg => ?_, fun fuel => ?_⟩
  · obtain ⟨K, hK⟩ := halts res out hg
    refine ⟨K + 1, fun fuel hfuel => ?_⟩
    rw [run_report hl hst]
    rcases hK.loop hl hd fuel with ⟨hF, -⟩ | hend
    · omega
    · exact hend
  · rw [run_report hl hst]
    -- the run's first step enters the body; from there a derivation exists or the fuel runs out
    rcases hen.or_busy Nat.one_pos hvalid (fun M _ => (Machine.runs_or_busy hp M).2.2) with
      ⟨res, out, hg⟩ | hbusy
    · obtain ⟨K, hK⟩ := halts res out hg
      rcases hK.loop hl hd fuel with ⟨-, hout⟩ | ⟨o, ho, hrep⟩
      · exact .inl hout
      · exact .inr ⟨res, by rw [hrep]; exact hg, by rw [hrep]; exact ho⟩
    · exact .inl (hbusy.loop hl hd)

/-- The body of `m` in `sampleSources` is the one alternative `+`. -/
theorem sampleProgram_body?_plus :
    (Machine.sampleProgram.body? [0x6D] matches some [[.plus]]) = true := by
  decide +kernel

/-- The run of `m` in `sampleSources` from zero: its body `{ + }` ends with one. -/
theorem run_agrees_with_rules_sample :
    Session.load Machine.sampleSources true = .ok ⟨Machine.sampleProgram, true, 0, .initial⟩ ∧
      ∃ fuel₀, ∀ fuel, fuel₀ ≤ fuel →
        ((⟨Machine.sampleProgram, true, 0, .initial⟩ : Session).run [0x6D] 0 fuel).1 =
          ⟨.done (some 1), [], none⟩ := by
  have hs :
      Session.load Machine.sampleSources true = .ok ⟨Machine.sampleProgram, true, 0, .initial⟩ := by
    rw [Session.load, Machine.load_sampleSources]
    rfl
  obtain ⟨body, hb, hruns, -⟩ := @run_agrees_with_rules _ _ [0x6D] hs (by decide +kernel) 0
  have hbody : body = [[.plus]] := by
    have h := sampleProgram_body?_plus
    split at h
    · rename_i heq
      exact Option.some.inj (hb.symm.trans heq)
    · cases h
  subst hbody
  obtain ⟨fuel₀, hrun⟩ := hruns _ _ (.first (.cons .plus .nil))
  refine ⟨hs, fuel₀, fun fuel hfuel => ?_⟩
  obtain ⟨o, ho, heq⟩ := hrun fuel hfuel
  cases ho
  exact heq

end Session

end Abacus
