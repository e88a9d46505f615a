import Abacus.Proofs.Samples
import Mathlib.Data.Fintype.Card
import Mathlib.Data.Fintype.EquivFin
import Mathlib.Data.Fintype.Sets

/-!
# Runs of functions that do not recurse end within their expanded body

A function calls another when the other's name stands among the tokens of its body and the
other is defined. When no function that a function `e` reaches by calls comes back to itself by
calls, every call from `e` is expanded within some depth: the body of `e` with every call
expanded into the call's token and the body it calls, expanded in turn, is a finite list of
tokens. A run of `e` then ends, from every register, within as many steps as that list has
tokens: it finishes, or it stops at the call of a function that is not defined.

The bound keeps each call's token in front of the body it calls, since the call is a step of
its own: `main { g }` with `g { + }` takes six steps, and `{ g { + } }` has six tokens. With each
call replaced by the body alone, `{ { + } }`, five steps leave the run unfinished.

The proof goes through the rules of `Abacus.Semantics.BigStep`. Within a depth that expands every
call, every piece of a body has a derivation: by recursion on the tree, with calls by induction
on the depth. The machine follows a derivation within the steps of the expanded print
(`Machine.RunGroup.lands_within`). And calls that never come back are expanded within a depth,
by well-founded induction on the functions reached, ordered by calls: there are finitely many
names, so an order without cycles has no infinite descent.

## Main definitions

* `Program.Calls` — one function calls another.
* `Program.AcyclicFrom` — no function that `e` reaches by calls comes back to itself.

## Main statements

* `Program.exists_within_of_acyclic` — calls that never come back are expanded within a depth.
* `RunGroup.exists_of_within` — within a depth that expands every call, bodies have derivations.
* `Session.run_within_of_runGroup` — a derivation ends the run within the expanded body.
* `Session.run_ends_within` — runs of a function whose calls never come back end within the
  tokens of its expanded body.
* `Session.run_outlasts_inlined_body` — the body with calls replaced by bodies alone is too short
  a bound.
-/

namespace Abacus

open Relation

namespace Program

/-- Function `f` calls function `g`: `g`'s name is one of the tokens of `f`'s body, and `g` is
defined. -/
def Calls (p : Program) (f g : Bytes) : Prop :=
  ∃ ws, p.bodyWords? f = some ws ∧ g ∈ ws ∧ (p.table.find? g).isSome

/-- No function that `e` reaches by calls comes back to itself by calls. -/
def AcyclicFrom (p : Program) (e : Bytes) : Prop :=
  ∀ f, ReflTransGen p.Calls e f → ¬ TransGen p.Calls f f

/-- `g` is called from `f`, directly or not, and `e` reaches `f`: the order of the functions that
a run of `e` can reach. -/
def CalledBelow (p : Program) (e g f : Bytes) : Prop :=
  TransGen p.Calls f g ∧ ReflTransGen p.Calls e f

section Calls

variable {sources : List Source} {p : Program} {e f g w : Bytes} {ws : List Bytes}
  {body : List (List Item)}

theorem bodyText?_of_body? (h : p.body? f = some body) :
    p.bodyText? f = some (Item.group body).words := by
  rw [bodyText?, h]
  rfl

/-- A defined function's name is a name: no reserved token, so no brace. -/
theorem isName_of_find? (hp : load sources = .ok p) {a : Address} (ha : p.table.find? f = some a) :
    isName f = true := by
  obtain ⟨-, hbuild⟩ := build_of_load hp
  obtain ⟨-, -, -, -, -, -, -, -, -, -, -, -, hname⟩ := Table.find?_definition hbuild ha
  exact hname

/-- **A token of a body's print that names a body is a call the body makes**: the braces around
the body name none, so the token stands between them. -/
theorem calls_of_mem_bodyText (hp : load sources = .ok p) (hf : p.bodyText? f = some ws)
    (hw : w ∈ ws) (hdef : (p.bodyText? w).isSome) : p.Calls f w := by
  obtain ⟨body, hb, rfl⟩ := Option.map_eq_some_iff.1 hf
  obtain ⟨b, hbw⟩ := Option.isSome_iff_exists.1 hdef
  obtain ⟨bw, hbw', -⟩ := Option.map_eq_some_iff.1 hbw
  obtain ⟨a, ha⟩ := Machine.Program.find?_of_body? hbw'
  have hname := isName_iff_ofWord?_eq_none.1 (isName_of_find? hp ha)
  have hopen : w ≠ openWord := fun h => by
    rw [Scan.ofWord?_eq_openBrace.2 h] at hname
    cases hname
  have hclose : w ≠ closeWord := fun h => by
    rw [Scan.ofWord?_eq_closeBrace.2 h] at hname
    cases hname
  have hmem : w ∈ altsWords body := by
    simp only [Item.words, List.mem_append, List.mem_cons, List.not_mem_nil, or_false] at hw
    rcases hw with (h | h) | h
    · exact absurd h hopen
    · exact h
    · exact absurd h hclose
  refine ⟨altsWords body, ?_, hmem, ?_⟩
  · rw [bodyWords?_eq hp, hb]
    rfl
  · rw [ha]
    rfl

/-- A function that calls is defined. -/
theorem Calls.caller_mem_names (h : p.Calls f g) : f ∈ p.table.entries.map (·.1) := by
  obtain ⟨ws, hws, -, -⟩ := h
  cases hfind : p.table.find? f with
  | none =>
    rw [bodyWords?, hfind] at hws
    cases hws
  | some a => exact Table.mem_names_of_find? hfind

/-- A function that is called is defined. -/
theorem Calls.callee_mem_names (h : p.Calls f g) : g ∈ p.table.entries.map (·.1) := by
  obtain ⟨-, -, -, hdef⟩ := h
  obtain ⟨a, ha⟩ := Option.isSome_iff_exists.1 hdef
  exact Table.mem_names_of_find? ha

/-- Calls from the functions `e` reaches, ordered by calls, have no infinite descent when none
comes back: the names are finitely many. -/
theorem wellFounded_calledBelow (h : p.AcyclicFrom e) :
    WellFounded fun g f : {x // x ∈ p.table.entries.map (·.1)} => p.CalledBelow e g.1 f.1 := by
  have : IsTrans _ fun g f : {x // x ∈ p.table.entries.map (·.1)} => p.CalledBelow e g.1 f.1 :=
    ⟨fun _ _ _ hab hbc => ⟨hbc.1.trans hab.1, hbc.2⟩⟩
  have : Std.Irrefl fun g f : {x // x ∈ p.table.entries.map (·.1)} =>
      p.CalledBelow e g.1 f.1 :=
    ⟨fun f hf => h f.1 hf.2 hf.1⟩
  exact Finite.wellFounded_of_trans_of_irrefl _

/-- **Calls that never come back are expanded within some depth.** The induction is
well-founded, on the defined functions that `e` reaches, ordered by calls: the calls in a
function's body are expanded within the deepest depth of the functions it calls, and a call of
the function one level deeper. -/
theorem exists_within_of_acyclic (hp : load sources = .ok p) (h : p.AcyclicFrom e) :
    ∀ f, ReflTransGen p.Calls e f → ∃ d, Expand.Within p.bodyText? d [f] := by
  have hdefined : ∀ x : {x // x ∈ p.table.entries.map (·.1)}, ReflTransGen p.Calls e x.1 →
      ∃ d, Expand.Within p.bodyText? d [x.1] := by
    intro x
    induction x using (wellFounded_calledBelow h).induction with
    | _ x ih =>
      intro hx
      cases ht : p.bodyText? x.1 with
      | none => exact ⟨0, Expand.within_single_of_none ht⟩
      | some ws =>
        -- each token of the body that names a body is a function `x` calls
        have hcallees : ∀ w ∈ ws, ∃ d, Expand.Within p.bodyText? d [w] := by
          intro w hw
          cases hw' : p.bodyText? w with
          | none => exact ⟨0, Expand.within_single_of_none hw'⟩
          | some b =>
            have hcall := calls_of_mem_bodyText hp ht hw (by rw [hw']; rfl)
            exact ih ⟨w, hcall.callee_mem_names⟩ ⟨.single hcall, hx⟩ (hx.tail hcall)
        obtain ⟨d, hd⟩ := Expand.exists_within hcallees
        exact ⟨d + 1, (Expand.within_succ_single_of_some ht).2 hd⟩
  intro f hf
  cases hfind : p.table.find? f with
  | none =>
    have hnone : p.bodyText? f = none := by
      rw [bodyText?, (body?_eq_none_iff hp).2 hfind]
      rfl
    exact ⟨0, Expand.within_single_of_none hnone⟩
  | some a => exact hdefined ⟨f, Table.mem_names_of_find? hfind⟩ hf

/-- **Calls that go down in a rank never come back.** The rank is checked on the tokens of the
defined functions' bodies only. -/
theorem acyclicFrom_of_rank (rank : Bytes → Nat)
    (h : ∀ f ∈ p.table.entries.map (·.1), ∀ g ∈ (p.bodyWords? f).getD [],
      (p.table.find? g).isSome → rank g < rank f) (e : Bytes) : p.AcyclicFrom e := by
  have hcall : ∀ {f g}, p.Calls f g → rank g < rank f := by
    intro f g hc
    have hf := hc.caller_mem_names
    obtain ⟨ws, hws, hg, hdef⟩ := hc
    exact h f hf g (by rw [hws]; exact hg) hdef
  -- along calls the rank goes down, so no function is reached from itself
  have hlt : ∀ {f g}, TransGen p.Calls f g → rank g < rank f := by
    intro f g hfg
    induction hfg with
    | single hc => exact hcall hc
    | tail _ hc ih => exact Nat.lt_trans (hcall hc) ih
  intro f _ hcycle
  exact Nat.lt_irrefl _ (hlt hcycle)

end Calls

end Program

/-! ### Derivations within a depth that expands every call -/

section Derivations

variable {p : Program} {d : Nat}

theorem within_alts_of_group {alts : List (List Item)}
    (h : Expand.Within p.bodyText? d (Item.group alts).words) :
    Expand.Within p.bodyText? d (altsWords alts) := by
  rw [Item.words, Expand.within_append, Expand.within_cons] at h
  exact h.1.2

theorem within_alts_cons {a : List Item} {as : List (List Item)}
    (h : Expand.Within p.bodyText? d (altsWords (a :: as))) :
    Expand.Within p.bodyText? d (seqWords a) ∧ Expand.Within p.bodyText? d (altsWords as) := by
  cases as with
  | nil => exact ⟨h, Expand.within_nil⟩
  | cons b bs =>
    rw [altsWords_cons_cons, Expand.within_append, Expand.within_cons] at h
    exact ⟨h.1, h.2.2⟩

mutual

/-- Within a depth that expands every call, given derivations for the calls, every item has a
derivation, from every register and chain of calls. The recursion is on the item's tree. -/
theorem RunItem.exists_of_within
    (hcall : ∀ f, Expand.Within p.bodyText? d [f] →
      ∀ chain n, ∃ r out, RunItem p.body? chain n (.call f) r out) :
    ∀ (i : Item), Expand.Within p.bodyText? d i.words →
      ∀ chain n, ∃ r out, RunItem p.body? chain n i r out
  | .plus, _, _, _ => ⟨_, _, .plus⟩
  | .minus, _, _, 0 => ⟨_, _, .minusZero⟩
  | .minus, _, _, _ + 1 => ⟨_, _, .minusSucc⟩
  | .query, _, _, _ => ⟨_, _, .query⟩
  | .bang, _, _, _ => ⟨_, _, .bang⟩
  | .atSign, _, _, _ => ⟨_, _, .atSign⟩
  | .call f, h, chain, n => hcall f h chain n
  | .group alts, h, chain, n => by
    obtain ⟨r, out, hg⟩ := RunGroup.exists_of_within hcall alts (within_alts_of_group h) chain n
    exact ⟨r, out, .group hg⟩

/-- Within a depth that expands every call, given derivations for the calls, every alternative
has a derivation: an item that ends with a register hands it on, any other ends the
alternative. -/
theorem RunSeq.exists_of_within
    (hcall : ∀ f, Expand.Within p.bodyText? d [f] →
      ∀ chain n, ∃ r out, RunItem p.body? chain n (.call f) r out) :
    ∀ (is : List Item), Expand.Within p.bodyText? d (seqWords is) →
      ∀ chain n, ∃ r out, RunSeq p.body? chain n is r out
  | [], _, _, _ => ⟨_, _, .nil⟩
  | i :: is, h, chain, n => by
    rw [seqWords_cons, Expand.within_append] at h
    obtain ⟨r, out, hi⟩ := RunItem.exists_of_within hcall i h.1 chain n
    cases r with
    | ok v =>
      obtain ⟨r', out', hs⟩ := RunSeq.exists_of_within hcall is h.2 chain v
      exact ⟨r', _, .cons hi hs⟩
    | fail => exact ⟨_, _, .stop hi rfl⟩
    | undefined g => exact ⟨_, _, .stop hi rfl⟩

/-- Within a depth that expands every call, given derivations for the calls, every group has a
derivation: a failed alternative passes on to the next. -/
theorem RunGroup.exists_of_within
    (hcall : ∀ f, Expand.Within p.bodyText? d [f] →
      ∀ chain n, ∃ r out, RunItem p.body? chain n (.call f) r out) :
    ∀ (alts : List (List Item)), Expand.Within p.bodyText? d (altsWords alts) →
      ∀ chain n, ∃ r out, RunGroup p.body? chain n alts r out
  | [], _, _, _ => ⟨_, _, .nil⟩
  | a :: as, h, chain, n => by
    obtain ⟨ha, has⟩ := within_alts_cons h
    obtain ⟨r, out, hs⟩ := RunSeq.exists_of_within hcall a ha chain n
    cases r with
    | ok v => exact ⟨_, _, .first hs⟩
    | fail =>
      obtain ⟨r', out', hg⟩ := RunGroup.exists_of_within hcall as has chain n
      exact ⟨r', _, .next hs hg⟩
    | undefined g => exact ⟨_, _, .stuck hs⟩

end

/-- **Within a depth that expands every call, every call has a derivation**, from every register
and chain of calls. The induction is on the depth: the body that a defined function runs has
its calls expanded within one level less. -/
theorem RunItem.exists_call_of_within :
    ∀ (d : Nat) (f : Bytes), Expand.Within p.bodyText? d [f] →
      ∀ chain n, ∃ r out, RunItem p.body? chain n (.call f) r out
  | d, f, h, chain, n => by
    cases hb : p.body? f with
    | none => exact ⟨_, _, .callUndefined hb⟩
    | some body =>
      have ht := Program.bodyText?_of_body? hb
      cases d with
      | zero => exact absurd h (Expand.not_within_zero_single_of_some ht)
      | succ d =>
        have hbody := within_alts_of_group ((Expand.within_succ_single_of_some ht).1 h)
        obtain ⟨r, out, hg⟩ :=
          RunGroup.exists_of_within (RunItem.exists_call_of_within d) body hbody (f :: chain) n
        exact ⟨r, out, .call hb hg⟩

/-- Within a depth that expands every call of a body's print, the body has a derivation, from
every register and chain of calls. -/
theorem RunGroup.exists_of_body_within (body : List (List Item))
    (h : Expand.Within p.bodyText? d (Item.group body).words) (chain : List Bytes) (n : Nat) :
    ∃ r out, RunGroup p.body? chain n body r out :=
  RunGroup.exists_of_within (RunItem.exists_call_of_within d) body (within_alts_of_group h) chain n

end Derivations

/-! ### Runs within the expanded body -/

namespace Machine

variable {sources : List Source} {p : Program} {entry : Bytes} {a : Address}
  {body : List (List Item)} {r : Nat} {res : Result} {out : Text}

/-- From the machine a run starts with, a derivation for the body halts the run, within the
steps of the body's expanded print. -/
theorem halts_within_of_runGroup (hp : Program.load sources = .ok p)
    (ha : p.table.find? entry = some a) (hb : p.body? entry = some body)
    (hg : RunGroup p.body? [entry] r body res out) :
    ∃ K, Halts p ⟨r, .success, 0, [], [⟨0, none, entry⟩], false, none, a⟩ res out K ∧
      StepsWithin p (Item.group body).words (K + res.isUndefined.toNat) := by
  obtain ⟨body', hb', hvalid, m₁, c, rest, hen, hfin⟩ :=
    enter_entry hp (start_of_find? (r := r) ha)
  rw [hb] at hb'
  cases hb'
  obtain ⟨k, hk, hsteps⟩ := RunGroup.lands_within hp hg hvalid hen.inside hen.closeWord hen.mode
    hen.register hen.saved
  -- the body's `{` and `}` are the two steps around its inside
  obtain ⟨K, hK, hhalts⟩ := hen.exec.halts_within hfin hk
  exact ⟨K, hhalts, hsteps.group.mono (by omega)⟩

end Machine

namespace Session

variable {sources : List Source} {s : Session} {entry : Bytes} {body : List (List Item)}

/-- **A derivation for a function's body ends the run within the steps of the body's expanded
print**: on a session that shows its displays and traces nothing, with that much fuel, and any
more, the run ends as the derivation says. -/
theorem run_within_of_runGroup (hp : Program.load sources = .ok s.program) (hd : s.debug = true)
    (hl : s.level = 0) (hb : s.program.body? entry = some body) {r : Nat} {res : Result}
    {out : Text} (hg : RunGroup s.program.body? [entry] r body res out) :
    ∃ K, Machine.StepsWithin s.program (Item.group body).words K ∧
      ∀ fuel, K ≤ fuel → ∃ o, Ends res o ∧ (s.run entry r fuel).1 = ⟨o, out, none⟩ := by
  obtain ⟨a, ha⟩ := Machine.Program.find?_of_body? hb
  obtain ⟨K, hK, hsteps⟩ := Machine.halts_within_of_runGroup hp ha hb hg
  refine ⟨K + res.isUndefined.toNat, hsteps, fun fuel hfuel => ?_⟩
  rw [run_report hl (Machine.start_of_find? ha)]
  exact hK.loop_of_le hl hd hfuel

/-- **A function whose calls never come back ends its runs within its expanded body.** Take a
session on sources that load and a defined function `e` such that no function `e` reaches by
calls comes back to itself. The print of `e`'s body, braces included, has its calls expanded
within some depth; and from every depth that expands them, with at least as much fuel as the
print has tokens once each call is followed by the body it calls, expanded in turn, the run of
`e` from any register finishes, or stops at the call of a function that is not defined. -/
theorem run_ends_within {debug : Bool} (hs : Session.load sources debug = .ok s) {e : Bytes}
    (he : (s.program.table.find? e).isSome) (hacyclic : s.program.AcyclicFrom e) :
    ∃ text, s.program.bodyText? e = some text ∧ (∃ d, Expand.Within s.program.bodyText? d text) ∧
      ∀ d, Expand.Within s.program.bodyText? d text → ∀ (r fuel : Nat),
        (Expand.expand s.program.bodyText? true d text).length ≤ fuel →
        (∃ v, (s.run e r fuel).1.outcome = .done v) ∨
          ∃ name offset file,
            (s.run e r fuel).1.outcome = .stopped (.undefinedCall name offset file) := by
  obtain ⟨hp, -, hl⟩ := load_ok hs
  obtain ⟨a, ha⟩ := Option.isSome_iff_exists.1 he
  obtain ⟨body, -, -, -, -, hb, -⟩ := Program.body?_eq_some hp ha
  have ht := Program.bodyText?_of_body? hb
  refine ⟨_, ht, ?_, fun d hd r fuel hfuel => ?_⟩
  · -- `e` reaches itself, so its own calls are expanded within some depth
    obtain ⟨d, hd⟩ := Program.exists_within_of_acyclic hp hacyclic e .refl
    cases d with
    | zero => exact absurd hd (Expand.not_within_zero_single_of_some ht)
    | succ d => exact ⟨d, (Expand.within_succ_single_of_some ht).1 hd⟩
  · -- the run follows a derivation from `r`, within the steps of the expanded body
    obtain ⟨res, out, hg⟩ := RunGroup.exists_of_body_within body hd [e] r
    obtain ⟨K, hsteps, hrun⟩ :=
      run_within_of_runGroup (s := { s with debug := true }) hp rfl hl hb hg
    obtain ⟨o, ho, hrep⟩ := hrun fuel (Nat.le_trans (hsteps d hd) hfuel)
    rw [outcome_eq_of_level_zero hl, hrep]
    cases ho with
    | ok v => exact .inl ⟨_, rfl⟩
    | fail => exact .inl ⟨_, rfl⟩
    | undefined name offset file => exact .inr ⟨name, offset, file, rfl⟩

end Session

namespace Session

open Samples in
/-- `main` of `callOnce` calls `g` once, and `g` calls nothing: its runs end within the six
tokens of `{ g { + } }`. -/
theorem run_ends_within_callOnce :
    (callOnceProgram.table.find? (word "main")).isSome ∧
      callOnceProgram.AcyclicFrom (word "main") ∧
      ∃ text, callOnceProgram.bodyText? (word "main") = some text ∧
        (∃ d, Expand.Within callOnceProgram.bodyText? d text) ∧
        ∀ d, Expand.Within callOnceProgram.bodyText? d text → ∀ (r fuel : Nat),
          (Expand.expand callOnceProgram.bodyText? true d text).length ≤ fuel →
          (∃ v, ((⟨callOnceProgram, false, 0, .initial⟩ : Session).run (word "main") r
            fuel).1.outcome = .done v) ∨
            ∃ name offset file, ((⟨callOnceProgram, false, 0, .initial⟩ : Session).run
              (word "main") r fuel).1.outcome = .stopped (.undefinedCall name offset file) := by
  have he : (callOnceProgram.table.find? (word "main")).isSome := by decide +kernel
  -- `main` has rank one and `g` rank zero
  have hacyclic : callOnceProgram.AcyclicFrom (word "main") :=
    Program.acyclicFrom_of_rank (fun f => if f = word "main" then 1 else 0)
      (by decide +kernel) _
  exact ⟨he, hacyclic, run_ends_within session_callOnce he hacyclic⟩

open Samples in
/-- **A call is a step of its own before the body it calls.** The body `{ g }` of `main` in
`callOnce`, with the call replaced by the body `{ + }` of `g`, reads `{ { + } }`: five tokens.
Five steps leave the run unfinished, since the call takes one more. -/
theorem run_outlasts_inlined_body :
    Session.load [callOnce] false = .ok ⟨callOnceProgram, false, 0, .initial⟩ ∧
      callOnceProgram.bodyText? (word "main") = some [openWord, word "g", closeWord] ∧
      Expand.Within callOnceProgram.bodyText? 1 [openWord, word "g", closeWord] ∧
      (Expand.expand callOnceProgram.bodyText? false 1 [openWord, word "g", closeWord]).length =
        5 ∧
      ((⟨callOnceProgram, false, 0, .initial⟩ : Session).run (word "main") 0 5).1.outcome =
        .outOfFuel :=
  ⟨session_callOnce, by decide +kernel⟩

end Session

end Abacus
