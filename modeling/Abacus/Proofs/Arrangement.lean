import Abacus.Proofs.Adequacy
import Abacus.Proofs.Settings
import Mathlib.Data.List.Perm.Basic

/-!
# Runs depend only on the bodies

A program is read from a list of sources, and its machine jumps between them by source index and
byte offset. What a run does depends on less: only on the functions the program defines and the
tokens of their bodies. How the definitions are spread over the sources, in which order, with
which blanks and comments, does not matter. Two programs whose functions have the same body
tokens run every function alike: both runs end or neither does, and when both end they show the
same text and end the same way, up to where a call of a function that is not defined stands.

The argument goes through the rules of `Abacus.Semantics.BigStep`. The tokens of a body are the
print of its tree, so equal tokens give equal trees. The rules are deterministic. A run of a
function follows any derivation for its body, and a run that ends ends as a derivation says. So
two runs that end follow the same derivation.

Whether a list of sources is accepted does not depend on their order either: the table is built
from each source's definitions, and the names must differ across all of them.

## Main definitions

* `Scan.groupWords` — the tokens of a group, up to the `}` that closes it.
* `Program.bodyWords?` — the tokens of a function's body.
* `Outcome.Alike` — two ends of runs, the same up to where an undefined call stands.

## Main statements

* `Program.body?_eq_of_bodyWords?` — the tokens of a body determine its tree.
* `RunGroup.det` — the rules are deterministic.
* `Session.run_of_runGroup`, `Session.runGroup_of_run` — runs and derivations.
* `Table.build_of_perm` — acceptance does not depend on the order of the sources.
* `Session.runs_depend_on_bodies` — runs depend only on the bodies.
-/

namespace Abacus

/-! ### The tokens of a body -/

namespace Scan

/-- The tokens of a group after its `{`, up to the `}` that closes it, with `d` groups nested in
it still open; nothing when the tokens end first. -/
def groupWords : Nat → List Bytes → Option (List Bytes)
  | _, [] => none
  | d, w :: ws =>
    if w = closeWord then
      match d with
      | 0 => some []
      | d + 1 => (groupWords d ws).map (w :: ·)
    else if w = openWord then (groupWords (d + 1) ws).map (w :: ·)
    else (groupWords d ws).map (w :: ·)

section GroupWords

variable {d : Nat} {w : Bytes} {ws : List Bytes}

theorem groupWords_close_zero : groupWords 0 (closeWord :: ws) = some [] := by
  simp [groupWords]

theorem groupWords_close_succ :
    groupWords (d + 1) (closeWord :: ws) = (groupWords d ws).map (closeWord :: ·) := by
  simp [groupWords]

theorem groupWords_open :
    groupWords d (openWord :: ws) = (groupWords (d + 1) ws).map (openWord :: ·) := by
  simp [groupWords, openWord_ne_closeWord]

theorem groupWords_other (ho : w ≠ openWord) (hc : w ≠ closeWord) :
    groupWords d (w :: ws) = (groupWords d ws).map (w :: ·) := by
  simp [groupWords, ho, hc]

end GroupWords

/-- A balanced stretch of tokens passes through the search whole. The induction is on the
balance, with the number of open groups and the tokens after the stretch generalised. -/
theorem groupWords_append_of_balanced {ws : List Bytes} (h : Balanced ws) :
    ∀ (d : Nat) (rest : List Bytes),
      groupWords d (ws ++ rest) = (groupWords d rest).map (ws ++ ·) := by
  induction h with
  | nil =>
    intro d rest
    simp
  | word ho hc _ ih =>
    intro d rest
    simp only [List.cons_append, groupWords_other ho hc, ih, Option.map_map, Function.comp_def]
  | @group inner rest' _ _ ihi ihr =>
    intro d rest
    -- the nested group opens one more, and its close brings the count back
    have hstep : openWord :: inner ++ closeWord :: rest' ++ rest =
        openWord :: (inner ++ closeWord :: (rest' ++ rest)) := by
      simp
    rw [hstep, groupWords_open, ihi, groupWords_close_succ, ihr]
    simp [Option.map_map, Function.comp_def]

/-- The tokens of a group whose inside is balanced are its inside. -/
theorem groupWords_body {inner : List Bytes} (h : Balanced inner) (rest : List Bytes) :
    groupWords 0 (inner ++ closeWord :: rest) = some inner := by
  rw [groupWords_append_of_balanced h, groupWords_close_zero]
  simp

/-- The tokens inside the group that opens at offset `off` of a text. -/
def groupAt (s : Bytes) (off : Nat) : Option (List Bytes) :=
  match (lexemes s off).map (·.word) with
  | w :: ws => if w = openWord then groupWords 0 ws else none
  | [] => none

end Scan

namespace Program

/-- The tokens of a function's body between its braces, read from the function's address;
nothing when the function is not defined. -/
def bodyWords? (p : Program) (name : Bytes) : Option (List Bytes) :=
  (p.table.find? name).bind fun a => Scan.groupAt (p.source a.source).bytes a.offset

section Bodies

variable {sources : List Source} {p : Program} {name : Bytes} {body : List (List Item)}

theorem validAlts_of_body? (hp : load sources = .ok p) (h : p.body? name = some body) :
    ValidAlts body := by
  obtain ⟨a, ha⟩ := Machine.Program.find?_of_body? h
  obtain ⟨body', -, -, -, -, hb, -, -, -, -, hvalid⟩ := body?_eq_some hp ha
  rw [h] at hb
  cases hb
  exact hvalid

/-- **In a loaded program, the tokens of a body are the print of its tree.** -/
theorem bodyWords?_eq (hp : load sources = .ok p) (name : Bytes) :
    p.bodyWords? name = (p.body? name).map altsWords := by
  cases ha : p.table.find? name with
  | none =>
    simp only [bodyWords?, ha, (body?_eq_none_iff hp).2 ha, Option.map_none, Option.bind_none]
  | some a =>
    obtain ⟨body, o, pre, c, rest, hb, hv, ho, hpre, hc, hvalid⟩ := body?_eq_some hp ha
    have hwords : (Scan.lexemes (p.source a.source).bytes a.offset).map (·.word) =
        openWord :: (altsWords body ++ closeWord :: rest.map (·.word)) := by
      change (p.view a).map (·.word) = _
      rw [hv, ← hpre]
      simp [ho, hc]
    simp only [bodyWords?, ha, Option.bind_some, Scan.groupAt, hwords, if_true, hb,
      Option.map_some]
    exact Scan.groupWords_body (balanced_altsWords hvalid) _

end Bodies

end Program

/-- A valid tree is read back from its print. -/
theorem readGroups_altsWords {as : List (List Item)} (h : ValidAlts as) :
    readGroups [Partial.empty] (altsWords as ++ [closeWord]) = some as := by
  obtain ⟨g', hfin, hread⟩ := @readGroups_alts as [] [] [closeWord] h
  rw [show Partial.empty = ⟨[], []⟩ from rfl, hread, readGroups_close_one, hfin]
  rfl

/-- Two valid trees with the same print are the same tree. -/
theorem altsWords_inj {as bs : List (List Item)} (ha : ValidAlts as) (hb : ValidAlts bs)
    (h : altsWords as = altsWords bs) : as = bs := by
  have hread := readGroups_altsWords ha
  rw [h, readGroups_altsWords hb] at hread
  exact (Option.some.inj hread).symm

/-- **The tokens of a body determine its tree**, in any two loaded programs. -/
theorem Program.body?_eq_of_bodyWords? {A B : List Source} {pA pB : Program}
    (hA : Program.load A = .ok pA) (hB : Program.load B = .ok pB) {name : Bytes}
    (h : pA.bodyWords? name = pB.bodyWords? name) : pA.body? name = pB.body? name := by
  rw [Program.bodyWords?_eq hA, Program.bodyWords?_eq hB] at h
  cases ha : pA.body? name with
  | none =>
    rw [ha] at h
    cases hb : pB.body? name with
    | none => rfl
    | some bodyB =>
      rw [hb] at h
      cases h
  | some bodyA =>
    cases hb : pB.body? name with
    | none =>
      rw [ha, hb] at h
      cases h
    | some bodyB =>
      rw [ha, hb] at h
      rw [altsWords_inj (Program.validAlts_of_body? hA ha) (Program.validAlts_of_body? hB hb)
        (Option.some.inj h)]

/-! ### The rules are deterministic -/

section Det

variable {bodies : Bytes → Option (List (List Item))}

mutual

/-- An item ends one way, with one output. -/
theorem RunItem.det :
    ∀ {chain : List Bytes} {n : Nat} {i : Item} {r₁ r₂ : Result} {out₁ out₂ : Text},
      RunItem bodies chain n i r₁ out₁ → RunItem bodies chain n i r₂ out₂ →
      r₁ = r₂ ∧ out₁ = out₂
  | _, _, _, _, _, _, _, .plus, h => by
    cases h
    exact ⟨rfl, rfl⟩
  | _, _, _, _, _, _, _, .minusZero, h => by
    cases h
    exact ⟨rfl, rfl⟩
  | _, _, _, _, _, _, _, .minusSucc, h => by
    cases h
    exact ⟨rfl, rfl⟩
  | _, _, _, _, _, _, _, .query, h => by
    cases h
    exact ⟨rfl, rfl⟩
  | _, _, _, _, _, _, _, .bang, h => by
    cases h
    exact ⟨rfl, rfl⟩
  | _, _, _, _, _, _, _, .atSign, h => by
    cases h
    exact ⟨rfl, rfl⟩
  | _, _, _, _, _, _, _, .callUndefined hb, h => by
    cases h with
    | callUndefined _ => exact ⟨rfl, rfl⟩
    | call hb' _ =>
      rw [hb] at hb'
      cases hb'
  | _, _, _, _, _, _, _, .call hb hg, h => by
    cases h with
    | callUndefined hb' =>
      rw [hb] at hb'
      cases hb'
    | call hb' hg' =>
      rw [hb] at hb'
      cases hb'
      exact RunGroup.det hg hg'
  | _, _, _, _, _, _, _, .group hg, h => by
    cases h with
    | group hg' => exact RunGroup.det hg hg'

/-- An alternative ends one way, with one output. -/
theorem RunSeq.det :
    ∀ {chain : List Bytes} {n : Nat} {is : List Item} {r₁ r₂ : Result} {out₁ out₂ : Text},
      RunSeq bodies chain n is r₁ out₁ → RunSeq bodies chain n is r₂ out₂ →
      r₁ = r₂ ∧ out₁ = out₂
  | _, _, _, _, _, _, _, .nil, h => by
    cases h
    exact ⟨rfl, rfl⟩
  | _, _, _, _, _, _, _, .cons hi hs, h => by
    cases h with
    | cons hi' hs' =>
      -- the first item hands on the same register, so the rest runs alike
      obtain ⟨hr, rfl⟩ := RunItem.det hi hi'
      cases hr
      obtain ⟨rfl, rfl⟩ := RunSeq.det hs hs'
      exact ⟨rfl, rfl⟩
    | stop hi' hr' =>
      obtain ⟨rfl, -⟩ := RunItem.det hi hi'
      cases hr'
  | _, _, _, _, _, _, _, .stop hi hr, h => by
    cases h with
    | cons hi' _ =>
      obtain ⟨rfl, -⟩ := RunItem.det hi hi'
      cases hr
    | stop hi' _ => exact RunItem.det hi hi'

/-- **The rules are deterministic**: a group ends one way, with one output. -/
theorem RunGroup.det :
    ∀ {chain : List Bytes} {n : Nat} {alts : List (List Item)} {r₁ r₂ : Result}
      {out₁ out₂ : Text},
      RunGroup bodies chain n alts r₁ out₁ → RunGroup bodies chain n alts r₂ out₂ →
      r₁ = r₂ ∧ out₁ = out₂
  | _, _, _, _, _, _, _, .nil, h => by
    cases h
    exact ⟨rfl, rfl⟩
  | _, _, _, _, _, _, _, .first hs, h => by
    cases h with
    | first hs' => exact RunSeq.det hs hs'
    | next hs' _ =>
      obtain ⟨hr, -⟩ := RunSeq.det hs hs'
      cases hr
    | stuck hs' =>
      obtain ⟨hr, -⟩ := RunSeq.det hs hs'
      cases hr
  | _, _, _, _, _, _, _, .next hs hg, h => by
    cases h with
    | first hs' =>
      obtain ⟨hr, -⟩ := RunSeq.det hs hs'
      cases hr
    | next hs' hg' =>
      -- the failed alternative shows the same, and the rest of the group runs alike
      obtain ⟨-, rfl⟩ := RunSeq.det hs hs'
      obtain ⟨rfl, rfl⟩ := RunGroup.det hg hg'
      exact ⟨rfl, rfl⟩
    | stuck hs' =>
      obtain ⟨hr, -⟩ := RunSeq.det hs hs'
      cases hr
  | _, _, _, _, _, _, _, .stuck hs, h => by
    cases h with
    | first hs' =>
      obtain ⟨hr, -⟩ := RunSeq.det hs hs'
      cases hr
    | next hs' _ =>
      obtain ⟨hr, -⟩ := RunSeq.det hs hs'
      cases hr
    | stuck hs' => exact RunSeq.det hs hs'

end

end Det

/-! ### How runs end -/

/-- Two ends of runs that are the same, up to where a call of a function that is not defined
stands. -/
inductive Outcome.Alike : Outcome → Outcome → Prop
  /-- The same end. -/
  | refl (o : Outcome) : Outcome.Alike o o
  /-- Both stopped at a call of the same undefined function, at any offsets of any files. -/
  | undefined (name : Bytes) (offset₁ offset₂ : Nat) (file₁ file₂ : String) :
      Outcome.Alike (.stopped (.undefinedCall name offset₁ file₁))
        (.stopped (.undefinedCall name offset₂ file₂))

namespace Ends

variable {res : Result} {o o₁ o₂ : Outcome}

/-- Two runs whose bodies end with the same result end alike. -/
theorem alike (h₁ : Ends res o₁) (h₂ : Ends res o₂) : o₁.Alike o₂ := by
  cases h₁ with
  | ok n =>
    cases h₂
    exact .refl _
  | fail =>
    cases h₂
    exact .refl _
  | undefined name offset file =>
    cases h₂ with
    | undefined _ offset' file' => exact .undefined name offset offset' file file'

theorem ne_outOfFuel (h : Ends res o) : o ≠ .outOfFuel := by
  cases h <;> simp

end Ends

/-! ### Runs and derivations -/

namespace Machine

variable {sources : List Source} {p : Program} {entry : Bytes} {r : Nat} {a : Address}
  {body : List (List Item)} {res : Result} {out : Text}

/-- From the machine a run of a defined function starts with, a derivation for its body halts
the run as it says. -/
theorem halts_of_runGroup (hp : Program.load sources = .ok p) (ha : p.table.find? entry = some a)
    (hb : p.body? entry = some body) (hg : RunGroup p.body? [entry] r body res out) :
    ∃ K, Halts p ⟨r, .success, 0, [], [⟨0, none, entry⟩], false, none, a⟩ res out K := by
  obtain ⟨body', hb', hvalid, m₁, c, rest, hen, hfin⟩ :=
    enter_entry hp (start_of_find? (r := r) ha)
  rw [hb] at hb'
  cases hb'
  obtain ⟨k, hk⟩ := RunGroup.lands hp hg hvalid hen.inside hen.closeWord hen.mode hen.register
    hen.saved
  exact hen.exec.halts hfin hk

end Machine

namespace Session

section Rules

variable {sources : List Source} {s : Session} {entry : Bytes} {body : List (List Item)}

/-- **A run follows any derivation for its function's body**: on a session that shows its
displays and traces nothing, with enough fuel, and any more, it ends as the derivation says. -/
theorem run_of_runGroup (hp : Program.load sources = .ok s.program) (hd : s.debug = true)
    (hl : s.level = 0) (hb : s.program.body? entry = some body) {r : Nat} {res : Result}
    {out : Text} (hg : RunGroup s.program.body? [entry] r body res out) :
    ∃ fuel₀, ∀ fuel, fuel₀ ≤ fuel → ∃ o, Ends res o ∧ (s.run entry r fuel).1 = ⟨o, out, none⟩ := by
  obtain ⟨a, ha⟩ := Machine.Program.find?_of_body? hb
  obtain ⟨K, hK⟩ := Machine.halts_of_runGroup hp ha hb hg
  refine ⟨K + 1, fun fuel hfuel => ?_⟩
  rw [run_report hl (Machine.start_of_find? ha)]
  rcases hK.loop hl hd fuel with ⟨hF, -⟩ | hend
  · omega
  · exact hend

/-- **A run that ends ends as a derivation for its function's body says**, with its output. -/
theorem runGroup_of_run (hp : Program.load sources = .ok s.program) (hd : s.debug = true)
    (hl : s.level = 0) (hb : s.program.body? entry = some body) (r fuel : Nat) :
    (s.run entry r fuel).1.outcome = .outOfFuel ∨
      ∃ res, RunGroup s.program.body? [entry] r body res (s.run entry r fuel).1.out ∧
        Ends res (s.run entry r fuel).1.outcome := by
  obtain ⟨a, ha⟩ := Machine.Program.find?_of_body? hb
  have hst := Machine.start_of_find? (r := r) ha
  obtain ⟨body', hb', hvalid, m₁, c, rest, hen, -⟩ := Machine.enter_entry hp hst
  rw [hb] at hb'
  cases hb'
  rw [run_report hl hst]
  -- the first step enters the body; from there a derivation exists or the fuel runs out
  rcases hen.or_busy Nat.one_pos hvalid (fun M _ => (Machine.runs_or_busy hp M).2.2) with
    ⟨res, out, hg⟩ | hbusy
  · obtain ⟨K, hK⟩ := Machine.halts_of_runGroup hp ha hb hg
    rcases hK.loop hl hd fuel with ⟨-, hout⟩ | ⟨o, ho, hrep⟩
    · exact .inl hout
    · exact .inr ⟨res, by rw [hrep]; exact hg, by rw [hrep]; exact ho⟩
  · exact .inl (hbusy.loop hl hd)

/-- A run of a function that is not defined is refused at the start, and shows nothing. -/
theorem run_of_find?_none (hf : s.program.table.find? entry = none) (r fuel : Nat) :
    (s.run entry r fuel).1.outcome = .stopped (.entryNotFound entry) ∧
      (s.run entry r fuel).1.out = [] := by
  rw [run_of_find?_eq_none (Int.natCast_nonneg r) hf]
  exact ⟨rfl, rfl⟩

/-- The end of a run at trace level 0 does not depend on whether the session shows its
displays. -/
theorem outcome_eq_of_level_zero (hl : s.level = 0) (entry : Bytes) (register : Int)
    (fuel : Nat) :
    (s.run entry register fuel).1.outcome =
      (({ s with debug := true } : Session).run entry register fuel).1.outcome := by
  have hs := (run_eq_quiet_of_level_zero hl entry register fuel).1
  have ht := (run_eq_quiet_of_level_zero
    (show ({ s with debug := true } : Session).level = 0 from hl) entry register fuel).1
  -- both sessions have the same quiet session
  exact hs.trans ht.symm

end Rules

/-- Two sessions run function `entry` from register `r` alike: both runs end, with enough fuel,
or neither does; and runs that end show the same text and end alike. -/
structure RunsAlike (sA sB : Session) (entry : Bytes) (r : Nat) : Prop where
  ends_iff : (∃ fuel, (sA.run entry r fuel).1.outcome ≠ .outOfFuel) ↔
    ∃ fuel, (sB.run entry r fuel).1.outcome ≠ .outOfFuel
  alike : ∀ fA fB, (sA.run entry r fA).1.outcome ≠ .outOfFuel →
    (sB.run entry r fB).1.outcome ≠ .outOfFuel →
    (sA.run entry r fA).1.out = (sB.run entry r fB).1.out ∧
      (sA.run entry r fA).1.outcome.Alike (sB.run entry r fB).1.outcome

section Alike

variable {A B : List Source} {sA sB : Session} {entry : Bytes} {r : Nat}

/-- A function whose run ends on one program ends on a program with the same bodies, on sessions
that show their displays and trace nothing. -/
theorem ends_of_ends (hA : Program.load A = .ok sA.program) (hB : Program.load B = .ok sB.program)
    (hdB : sB.debug = true) (hdA : sA.debug = true) (hlA : sA.level = 0) (hlB : sB.level = 0)
    (hbodies : sA.program.body? = sB.program.body?) {fuel : Nat}
    (hend : (sA.run entry r fuel).1.outcome ≠ .outOfFuel) :
    ∃ fuel', (sB.run entry r fuel').1.outcome ≠ .outOfFuel := by
  cases hb : sA.program.body? entry with
  | none =>
    rw [hbodies] at hb
    have hf := (Program.body?_eq_none_iff hB).1 hb
    exact ⟨0, by rw [(run_of_find?_none hf r 0).1]; simp⟩
  | some body =>
    rcases runGroup_of_run hA hdA hlA hb r fuel with hout | ⟨res, hg, -⟩
    · exact absurd hout hend
    -- the derivation the run followed is one for the other program's body too
    rw [hbodies] at hb hg
    obtain ⟨fuel₀, h₀⟩ := run_of_runGroup hB hdB hlB hb hg
    obtain ⟨o, ho, hrun⟩ := h₀ fuel₀ (Nat.le_refl _)
    exact ⟨fuel₀, by rw [hrun]; exact ho.ne_outOfFuel⟩

/-- Two runs of a function that end on programs with the same bodies show the same text and
end alike, on sessions that show their displays and trace nothing. -/
theorem alike_of_ends (hA : Program.load A = .ok sA.program) (hB : Program.load B = .ok sB.program)
    (hdA : sA.debug = true) (hdB : sB.debug = true) (hlA : sA.level = 0) (hlB : sB.level = 0)
    (hbodies : sA.program.body? = sB.program.body?) {fA fB : Nat}
    (hendA : (sA.run entry r fA).1.outcome ≠ .outOfFuel)
    (hendB : (sB.run entry r fB).1.outcome ≠ .outOfFuel) :
    (sA.run entry r fA).1.out = (sB.run entry r fB).1.out ∧
      (sA.run entry r fA).1.outcome.Alike (sB.run entry r fB).1.outcome := by
  cases hb : sA.program.body? entry with
  | none =>
    have hfA := (Program.body?_eq_none_iff hA).1 hb
    rw [hbodies] at hb
    have hfB := (Program.body?_eq_none_iff hB).1 hb
    rw [(run_of_find?_none hfA r fA).1, (run_of_find?_none hfA r fA).2,
      (run_of_find?_none hfB r fB).1, (run_of_find?_none hfB r fB).2]
    exact ⟨rfl, .refl _⟩
  | some body =>
    have hb' : sB.program.body? entry = some body := hbodies ▸ hb
    rcases runGroup_of_run hA hdA hlA hb r fA with hout | ⟨resA, hgA, hoA⟩
    · exact absurd hout hendA
    rcases runGroup_of_run hB hdB hlB hb' r fB with hout | ⟨resB, hgB, hoB⟩
    · exact absurd hout hendB
    -- both runs follow a derivation for the same body, and there is only one
    rw [← hbodies] at hgB
    obtain ⟨rfl, hout⟩ := RunGroup.det hgA hgB
    exact ⟨hout, hoA.alike hoB⟩

/-- On sessions that show their displays and trace nothing, programs with the same bodies run
every function alike. -/
theorem runsAlike_of_bodies (hA : Program.load A = .ok sA.program)
    (hB : Program.load B = .ok sB.program) (hdA : sA.debug = true) (hdB : sB.debug = true)
    (hlA : sA.level = 0) (hlB : sB.level = 0) (hbodies : sA.program.body? = sB.program.body?)
    (entry : Bytes) (r : Nat) : RunsAlike sA sB entry r where
  ends_iff := ⟨fun ⟨_, h⟩ => ends_of_ends hA hB hdB hdA hlA hlB hbodies h,
    fun ⟨_, h⟩ => ends_of_ends hB hA hdA hdB hlB hlA hbodies.symm h⟩
  alike _ _ hendA hendB := alike_of_ends hA hB hdA hdB hlA hlB hbodies hendA hendB

/-- Running alike carries over to sessions whose runs end as those of the first two and show the
same text. -/
theorem RunsAlike.of_outcome_eq {tA tB : Session} (h : RunsAlike tA tB entry r)
    (hoA : ∀ fuel, (sA.run entry r fuel).1.outcome = (tA.run entry r fuel).1.outcome)
    (hoB : ∀ fuel, (sB.run entry r fuel).1.outcome = (tB.run entry r fuel).1.outcome)
    (hout : ∀ fA fB, (sA.run entry r fA).1.out = (sB.run entry r fB).1.out) :
    RunsAlike sA sB entry r where
  ends_iff := by
    simp only [hoA, hoB]
    exact h.ends_iff
  alike fA fB hendA hendB := by
    rw [hoA] at hendA ⊢
    rw [hoB] at hendB ⊢
    exact ⟨hout fA fB, (h.alike fA fB hendA hendB).2⟩

end Alike

end Session

/-! ### The order of the sources -/

/-- **Whether a list of sources is accepted does not depend on their order.** -/
theorem Table.build_of_perm {A B : List Source} (h : B.Perm A) {t : Table}
    (ht : Table.build A = .ok t) : ∃ t', Table.build B = .ok t' := by
  obtain ⟨dss, hdss, hnd, -⟩ := (Table.build_eq_ok_iff t).1 ht
  -- each source keeps its own definitions, in the permuted order
  obtain ⟨dss', hdss', hperm⟩ := List.perm_comp_forall₂ h hdss
  exact ⟨⟨entriesFrom 0 dss'⟩, (Table.build_eq_ok_iff _).2
    ⟨dss', hdss', ((hperm.flatten).map _).nodup_iff.2 hnd, rfl⟩⟩

/-- A source's tokens are read as definitions in one way only: the close of each body is found
by counting, so the bodies, and the definitions after them, are the same. -/
theorem Definitions.unique {ls : List Lexeme} {ds₁ ds₂ : List (Bytes × Nat)}
    (h₁ : Definitions ls ds₁) (h₂ : Definitions ls ds₂) : ds₁ = ds₂ := by
  induction h₁ generalizing ds₂ with
  | nil =>
    generalize hls : ([] : List Lexeme) = ls at h₂
    cases h₂ with
    | nil => rfl
    | cons => simp at hls
  | @cons n o c inner rest ds _ _ hb hc _ ih =>
    generalize hls : n :: o :: inner ++ c :: rest = ls at h₂
    cases h₂ with
    | nil => simp at hls
    | @cons n' o' c' inner' rest' ds' _ _ hb' hc' hrest' =>
      simp only [List.cons_append, List.cons.injEq] at hls
      obtain ⟨rfl, rfl, hsplit⟩ := hls
      -- both bodies end at the first close that no open before it matches
      have hw : inner.map (·.word) = inner'.map (·.word) := by
        have hmap := congrArg (List.map (·.word)) hsplit
        simp only [List.map_append, List.map_cons, hc, hc'] at hmap
        have hbody := Scan.groupWords_body hb (rest.map (·.word))
        rw [hmap, Scan.groupWords_body hb'] at hbody
        exact (Option.some.inj hbody).symm
      have hlen : inner.length = inner'.length := by
        simpa using congrArg List.length hw
      obtain ⟨rfl, hrest⟩ := List.append_inj hsplit hlen
      obtain ⟨rfl, rfl⟩ := List.cons.inj hrest
      rw [ih hrest']

namespace Table

/-- The definition of a name in a source gives an entry of the table at that source's index. -/
theorem mem_entriesFrom_of {dss : List (List (Bytes × Nat))} {ds : List (Bytes × Nat)}
    {w : Bytes} {o : Nat} (hmem : (w, o) ∈ ds) :
    ∀ {i j : Nat}, dss[j]? = some ds → (w, (⟨i + j, o⟩ : Address)) ∈ entriesFrom i dss := by
  induction dss with
  | nil =>
    intro i j hj
    simp at hj
  | cons ds₀ dss ih =>
    intro i j hj
    cases j with
    | zero =>
      obtain rfl : ds₀ = ds := by simpa using hj
      exact List.mem_append_left _ (List.mem_map.2 ⟨(w, o), hmem, rfl⟩)
    | succ j =>
      have hmem' := ih (i := i + 1) (by simpa using hj)
      rw [show i + 1 + j = i + (j + 1) by omega] at hmem'
      exact List.mem_append_right _ hmem'

/-- A function defined in an accepted list of sources is defined at the same offset of the same
source in any accepted permutation of it. -/
theorem find?_of_perm {A B : List Source} (h : B.Perm A) {tA tB : Table}
    (hA : build A = .ok tA) (hB : build B = .ok tB) {name : Bytes} {a : Address}
    (ha : tA.find? name = some a) :
    ∃ b, tB.find? name = some b ∧ B.getD b.source default = A.getD a.source default ∧
      b.offset = a.offset := by
  obtain ⟨dssA, hdssA, -, htA⟩ := (build_eq_ok_iff tA).1 hA
  obtain ⟨dssB, hdssB, -, htB⟩ := (build_eq_ok_iff tB).1 hB
  have hmem := (find?_eq_some_iff (nodup_names_of_build hA) name a).1 ha
  rw [htA] at hmem
  obtain ⟨j, ds, hj, hsrc, hmem⟩ := mem_entriesFrom hmem
  obtain ⟨src, hAj, hds⟩ := Forall₂.getElem? hdssA hj
  -- the defining source stands in the permutation too, with the same definitions
  obtain ⟨k, hBk⟩ := List.mem_iff_getElem?.1 (h.mem_iff.2 (List.mem_of_getElem? hAj))
  obtain ⟨ds', hk, hds'⟩ := Forall₂.getElem? (List.Forall₂.flip hdssB) hBk
  obtain rfl := Definitions.unique hds' hds
  refine ⟨⟨k, a.offset⟩, (find?_eq_some_iff (nodup_names_of_build hB) name _).2 ?_, ?_, rfl⟩
  · rw [htB]
    simpa using mem_entriesFrom_of hmem (i := 0) hk
  · rw [List.getD_eq_getElem?_getD, List.getD_eq_getElem?_getD, hBk, hsrc, Nat.zero_add, hAj]

end Table

/-- **A permutation of the sources has the same bodies.** -/
theorem Program.bodyWords?_of_perm {A B : List Source} {pA pB : Program} (h : B.Perm A)
    (hA : Program.load A = .ok pA) (hB : Program.load B = .ok pB) (name : Bytes) :
    pB.bodyWords? name = pA.bodyWords? name := by
  obtain ⟨hsA, htA⟩ := Program.build_of_load hA
  obtain ⟨hsB, htB⟩ := Program.build_of_load hB
  cases ha : pA.table.find? name with
  | some a =>
    obtain ⟨b, hb, hsrc, hoff⟩ := Table.find?_of_perm h htA htB ha
    simp only [Program.bodyWords?, ha, hb, Option.bind_some, Program.source, hsA, hsB, hsrc, hoff]
  | none =>
    cases hb : pB.table.find? name with
    | none => simp only [Program.bodyWords?, ha, hb, Option.bind_none]
    | some b =>
      -- a name defined in the permutation is defined in the sources themselves
      obtain ⟨a, ha', -⟩ := Table.find?_of_perm h.symm htB htA hb
      rw [ha] at ha'
      cases ha'

namespace Session

/-- **Runs depend only on the bodies of the functions.** A list of sources is accepted exactly
when every permutation of it is, and a permutation has the same bodies. Take two accepted lists
of sources that define the same functions with the same body tokens, however the definitions
are spread over the sources, ordered, spaced and commented, and sessions on them with the same
display setting. Then every function, from every register, runs alike on both: the runs end,
with enough fuel, on both or on neither, and runs that end show the same text and end the same
way, up to where a call of a function that is not defined stands. -/
theorem runs_depend_on_bodies :
    (∀ A : List Source,
      (∃ t, Table.build A = .ok t) ↔ ∀ B : List Source, B.Perm A → ∃ t, Table.build B = .ok t) ∧
    (∀ (A B : List Source) (pA pB : Program), B.Perm A → Program.load A = .ok pA →
      Program.load B = .ok pB → ∀ name, pB.bodyWords? name = pA.bodyWords? name) ∧
    ∀ (A B : List Source) (debug : Bool) (sA sB : Session),
      Session.load A debug = .ok sA → Session.load B debug = .ok sB →
      (∀ name, sA.program.bodyWords? name = sB.program.bodyWords? name) →
      ∀ (entry : Bytes) (r : Nat), RunsAlike sA sB entry r := by
  refine ⟨fun A => ⟨fun ⟨_, ht⟩ B hB => Table.build_of_perm hB ht, fun h => h A (.refl A)⟩,
    fun A B pA pB h hA hB => Program.bodyWords?_of_perm h hA hB, ?_⟩
  intro A B debug sA sB hA hB hbody entry r
  obtain ⟨hpA, hdA, hlA⟩ := load_ok hA
  obtain ⟨hpB, hdB, hlB⟩ := load_ok hB
  have hbodies : sA.program.body? = sB.program.body? :=
    funext fun name => Program.body?_eq_of_bodyWords? hpA hpB (hbody name)
  cases debug with
  | true => exact runsAlike_of_bodies hpA hpB hdA hdB hlA hlB hbodies entry r
  | false =>
    -- the same sessions showing their displays run alike, and end as these do
    have hpA' : Program.load A = .ok ({ sA with debug := true } : Session).program := hpA
    have hpB' : Program.load B = .ok ({ sB with debug := true } : Session).program := hpB
    have h := runsAlike_of_bodies hpA' hpB' rfl rfl hlA hlB hbodies entry r
    exact h.of_outcome_eq (outcome_eq_of_level_zero hlA entry r)
      (outcome_eq_of_level_zero hlB entry r)
      (fun _ _ => (run_out_of_debug hdA).trans (run_out_of_debug hdB).symm)

end Session

end Abacus
