import Abacus.Proofs.Arrangement
import Abacus.Program.Samples

/-!
# What the sample programs compute

The sample programs recurse on the register, so no fixed number of runs can show what they
compute. Their bodies are read once from the text; from then on each function is a group of the
rules of `Abacus.Semantics.BigStep`, and a derivation for every register is built by induction
on the register, through the calls the body makes. The rules then give the runs: with enough
fuel a run returns the derived register, or no value when the body fails.

## Main definitions

* `Session.Returns` — a run returns a value, given enough fuel.
* `Samples.zeroBody` … `Samples.threeWaysBody` — the bodies of the sample functions, as trees.
* `Samples.callOnceProgram`, `Samples.threeWaysProgram` — the programs of `Samples.callOnce`
  and `Samples.threeWays`, as they load.

## Main statements

* `Program.body?_of_bodyWords?` — a body is the tree its tokens print.
* `Session.returns_of_runGroup` — a derivation that ends with a register or a failure is what
  the run returns.
* `Samples.half_runs`, `Samples.double_runs`, … — the derivations, for every register.
* `Samples.samples_compute` — the sample programs compute their functions.
-/

namespace Abacus

namespace Program

/-- **In a loaded program, a function whose body's tokens print a valid tree has that tree as
its body.** -/
theorem body?_of_bodyWords? {sources : List Source} {p : Program} (hp : load sources = .ok p)
    {name : Bytes} {body : List (List Item)} (hw : p.bodyWords? name = some (altsWords body))
    (hv : ValidAlts body) : p.body? name = some body := by
  rw [bodyWords?_eq hp] at hw
  obtain ⟨b, hb, heq⟩ := Option.map_eq_some_iff.1 hw
  rw [hb, altsWords_inj (validAlts_of_body? hp hb) hv heq]

end Program

namespace Session

/-- A run of function `entry` from register `r` returns `res`: with enough fuel, and any more,
it finishes with `res`. -/
def Returns (s : Session) (entry : Bytes) (r : Nat) (res : Option Nat) : Prop :=
  ∃ fuel₀, ∀ fuel, fuel₀ ≤ fuel → (s.run entry r fuel).1.outcome = .done res

/-- **A derivation for a function's body that ends with a register or a failure is what a run
returns**, on a loaded session, whether it shows its displays or not. -/
theorem returns_of_runGroup {sources : List Source} {debug : Bool} {s : Session}
    (hs : Session.load sources debug = .ok s) {entry : Bytes} {body : List (List Item)}
    (hb : s.program.body? entry = some body) {r : Nat} {res : Result} {out : Text}
    (hg : RunGroup s.program.body? [entry] r body res out) {v : Option Nat}
    (hend : Ends res (.done v)) : s.Returns entry r v := by
  obtain ⟨hp, -, hl⟩ := load_ok hs
  -- the same session showing its displays follows the derivation, and ends as `s` does
  obtain ⟨fuel₀, h₀⟩ := run_of_runGroup (s := { s with debug := true }) hp rfl hl hb hg
  refine ⟨fuel₀, fun fuel hfuel => ?_⟩
  obtain ⟨o, ho, hrun⟩ := h₀ fuel hfuel
  rw [outcome_eq_of_level_zero hl, hrun]
  cases hend <;> cases ho <;> rfl

end Session

namespace Samples

/-! ### The bodies -/

/-- `zero`: `{ { - zero | } }`. -/
def zeroBody : List (List Item) := [[.group [[.minus, .call (word "zero")], []]]]

/-- `not`: `{ { - zero | + } }`. -/
def notBody : List (List Item) := [[.group [[.minus, .call (word "zero")], [.plus]]]]

/-- `assert_zero`: `{ not - }`. -/
def assertZeroBody : List (List Item) := [[.call (word "not"), .minus]]

/-- `half`: `{ { - - half + | assert_zero } }`. -/
def halfBody : List (List Item) :=
  [[.group [[.minus, .minus, .call (word "half"), .plus], [.call (word "assert_zero")]]]]

/-- `double`: `{ { - double + + | } }`. -/
def doubleBody : List (List Item) := [[.group [[.minus, .call (word "double"), .plus, .plus], []]]]

/-- The `main` of `threeWays`: `{ { - - - | - - | + } }`. -/
def threeWaysBody : List (List Item) :=
  [[.group [[.minus, .minus, .minus], [.minus, .minus], [.plus]]]]

/-- A body that calls one function: `{ f }`. -/
def callBody (f : Bytes) : List (List Item) := [[.call f]]

/-! ### Derivations for every register -/

section Rules

variable {bodies : Bytes → Option (List (List Item))}

/-- A body that only calls `f` ends as the body of `f` does. -/
theorem callBody_runs {f : Bytes} {body : List (List Item)} (hf : bodies f = some body)
    {chain : List Bytes} {n : Nat} {r : Result} (hg : RunGroup bodies (f :: chain) n body r []) :
    RunGroup bodies chain n (callBody f) r [] := by
  cases r with
  | ok m => exact .first (.cons (.call hf hg) .nil)
  | fail => exact .next (.stop (.call hf hg) rfl) .nil
  | undefined g => exact .stuck (.stop (.call hf hg) rfl)

/-- `zero` ends with zero, by recursion on the register. -/
theorem zero_runs (hz : bodies (word "zero") = some zeroBody) :
    ∀ (n : Nat) (chain : List Bytes), RunGroup bodies chain n zeroBody (.ok 0) []
  | 0, _ => .first (.cons (.group (.next (.stop .minusZero rfl) (.first .nil))) .nil)
  | n + 1, chain =>
    .first (.cons (.group (.first (.cons .minusSucc
      (.cons (.call hz (zero_runs hz n (word "zero" :: chain))) .nil)))) .nil)

/-- `not` takes zero to one and any other register to zero. -/
theorem not_runs (hz : bodies (word "zero") = some zeroBody) :
    ∀ (n : Nat) (chain : List Bytes),
      RunGroup bodies chain n notBody (.ok (if n = 0 then 1 else 0)) []
  | 0, _ => .first (.cons (.group (.next (.stop .minusZero rfl) (.first (.cons .plus .nil)))) .nil)
  | n + 1, chain =>
    .first (.cons (.group (.first (.cons .minusSucc
      (.cons (.call hz (zero_runs hz n (word "zero" :: chain))) .nil)))) .nil)

/-- `assert_zero` keeps zero and fails on any other register. -/
theorem assertZero_runs (hz : bodies (word "zero") = some zeroBody)
    (hn : bodies (word "not") = some notBody) :
    ∀ (n : Nat) (chain : List Bytes),
      RunGroup bodies chain n assertZeroBody (if n = 0 then .ok 0 else .fail) []
  | 0, chain =>
    .first (.cons (.call hn (not_runs hz 0 (word "not" :: chain))) (.cons .minusSucc .nil))
  | n + 1, chain =>
    .next (.cons (.call hn (not_runs hz (n + 1) (word "not" :: chain))) (.stop .minusZero rfl)) .nil

/-- **`half` halves an even register and fails on an odd one**, by induction on the register
in steps of two: the first alternative takes two away and calls `half` again; on zero and one it
fails at once, and `assert_zero` decides. -/
theorem half_runs (hz : bodies (word "zero") = some zeroBody)
    (hn : bodies (word "not") = some notBody)
    (ha : bodies (word "assert_zero") = some assertZeroBody)
    (hh : bodies (word "half") = some halfBody) :
    ∀ (n : Nat) (chain : List Bytes),
      RunGroup bodies chain n halfBody (if n % 2 = 0 then .ok (n / 2) else .fail) []
  | 0, chain =>
    .first (.cons (.group (.next (.stop .minusZero rfl)
      (.first (.cons (.call ha (assertZero_runs hz hn 0 (word "assert_zero" :: chain))) .nil))))
      .nil)
  | 1, chain =>
    .next (.stop (.group (.next (.cons .minusSucc (.stop .minusZero rfl))
      (.next (.stop (.call ha (assertZero_runs hz hn 1 (word "assert_zero" :: chain))) rfl) .nil)))
      rfl) .nil
  | n + 2, chain => by
    have ih := half_runs hz hn ha hh n (word "half" :: chain)
    have hmod : (n + 2) % 2 = n % 2 := Nat.add_mod_right n 2
    have hdiv : (n + 2) / 2 = n / 2 + 1 := Nat.add_div_right n (by decide)
    rw [hmod, hdiv]
    by_cases he : n % 2 = 0
    · -- the recursive call halves `n`, and one more is added
      rw [if_pos he] at ih ⊢
      exact .first (.cons (.group (.first (.cons .minusSucc (.cons .minusSucc
        (.cons (.call hh ih) (.cons .plus .nil)))))) .nil)
    · -- the recursive call fails, and so does `assert_zero` on a register of two or more
      rw [if_neg he] at ih ⊢
      exact .next (.stop (.group (.next
        (.cons .minusSucc (.cons .minusSucc (.stop (.call hh ih) rfl)))
        (.next (.stop (.call ha (assertZero_runs hz hn (n + 2) (word "assert_zero" :: chain))) rfl)
          .nil))) rfl) .nil

/-- `double` doubles the register, by recursion on it. -/
theorem double_runs (hd : bodies (word "double") = some doubleBody) :
    ∀ (n : Nat) (chain : List Bytes), RunGroup bodies chain n doubleBody (.ok (2 * n)) []
  | 0, _ => .first (.cons (.group (.next (.stop .minusZero rfl) (.first .nil))) .nil)
  | n + 1, chain =>
    .first (.cons (.group (.first (.cons .minusSucc (.cons (.call hd (double_runs hd n
      (word "double" :: chain))) (.cons .plus (.cons .plus .nil)))))) .nil)

/-- The three alternatives take three away when they can, else two, else add one. -/
theorem threeWays_runs : ∀ (n : Nat) (chain : List Bytes),
    RunGroup bodies chain n threeWaysBody
      (.ok (if 3 ≤ n then n - 3 else if n = 2 then 0 else n + 1)) []
  | 0, _ =>
    .first (.cons (.group (.next (.stop .minusZero rfl) (.next (.stop .minusZero rfl)
      (.first (.cons .plus .nil))))) .nil)
  | 1, _ =>
    .first (.cons (.group (.next (.cons .minusSucc (.stop .minusZero rfl))
      (.next (.cons .minusSucc (.stop .minusZero rfl)) (.first (.cons .plus .nil))))) .nil)
  | 2, _ =>
    .first (.cons (.group (.next (.cons .minusSucc (.cons .minusSucc (.stop .minusZero rfl)))
      (.first (.cons .minusSucc (.cons .minusSucc .nil))))) .nil)
  | n + 3, _ => by
    rw [if_pos (Nat.le_add_left 3 n), Nat.add_sub_cancel]
    exact .first (.cons (.group (.first (.cons .minusSucc (.cons .minusSucc
      (.cons .minusSucc .nil))))) .nil)

end Rules

/-! ### The programs and their bodies -/

/-- `halving` loads, and the tokens of each of its bodies, read from the text, print these
trees. -/
theorem halving_loads : ∃ p, Program.load [halving] = .ok p ∧
    p.body? (word "zero") = some zeroBody ∧ p.body? (word "not") = some notBody ∧
    p.body? (word "assert_zero") = some assertZeroBody ∧ p.body? (word "half") = some halfBody ∧
    p.body? (word "main") = some (callBody (word "half")) := by
  have h : (Program.load [halving]).toOption.map (fun p => [p.bodyWords? (word "zero"),
      p.bodyWords? (word "not"), p.bodyWords? (word "assert_zero"), p.bodyWords? (word "half"),
      p.bodyWords? (word "main")]) = some [some (altsWords zeroBody), some (altsWords notBody),
      some (altsWords assertZeroBody), some (altsWords halfBody),
      some (altsWords (callBody (word "half")))] := by
    decide +kernel
  have hnames : Symbol.ofWord? (word "zero") = none ∧ Symbol.ofWord? (word "not") = none ∧
      Symbol.ofWord? (word "assert_zero") = none ∧ Symbol.ofWord? (word "half") = none := by
    decide +kernel
  cases hp : Program.load [halving] with
  | error f =>
    rw [hp] at h
    cases h
  | ok p =>
    rw [hp] at h
    simp only [Except.toOption, Option.map_some, Option.some.injEq, List.cons.injEq, and_true] at h
    obtain ⟨h₁, h₂, h₃, h₄, h₅⟩ := h
    refine ⟨p, rfl, Program.body?_of_bodyWords? hp h₁ ?_, Program.body?_of_bodyWords? hp h₂ ?_,
      Program.body?_of_bodyWords? hp h₃ ?_, Program.body?_of_bodyWords? hp h₄ ?_,
      Program.body?_of_bodyWords? hp h₅ ?_⟩ <;>
      simp [zeroBody, notBody, assertZeroBody, halfBody, callBody, ValidAlts, ValidSeq,
        Item.Valid, hnames]

/-- `doubling` loads, with these bodies. -/
theorem doubling_loads : ∃ p, Program.load [doubling] = .ok p ∧
    p.body? (word "double") = some doubleBody ∧
    p.body? (word "main") = some (callBody (word "double")) := by
  have h : (Program.load [doubling]).toOption.map (fun p => [p.bodyWords? (word "double"),
      p.bodyWords? (word "main")]) =
      some [some (altsWords doubleBody), some (altsWords (callBody (word "double")))] := by
    decide +kernel
  have hname : Symbol.ofWord? (word "double") = none := by decide +kernel
  cases hp : Program.load [doubling] with
  | error f =>
    rw [hp] at h
    cases h
  | ok p =>
    rw [hp] at h
    simp only [Except.toOption, Option.map_some, Option.some.injEq, List.cons.injEq, and_true] at h
    obtain ⟨h₁, h₂⟩ := h
    refine ⟨p, rfl, Program.body?_of_bodyWords? hp h₁ ?_, Program.body?_of_bodyWords? hp h₂ ?_⟩ <;>
      simp [doubleBody, callBody, ValidAlts, ValidSeq, Item.Valid, hname]

/-- `threeWays` loads, with this body for `main`. -/
theorem threeWays_loads : ∃ p, Program.load [threeWays] = .ok p ∧
    p.body? (word "main") = some threeWaysBody := by
  have h : (Program.load [threeWays]).toOption.map (fun p => p.bodyWords? (word "main")) =
      some (some (altsWords threeWaysBody)) := by
    decide +kernel
  cases hp : Program.load [threeWays] with
  | error f =>
    rw [hp] at h
    cases h
  | ok p =>
    rw [hp] at h
    simp only [Except.toOption, Option.map_some, Option.some.injEq] at h
    exact ⟨p, rfl, Program.body?_of_bodyWords? hp h (by simp [threeWaysBody, ValidAlts, ValidSeq,
      Item.Valid])⟩

/-! ### What the runs return -/

/-- The program of `callOnce`: `main` read from offset 5 of its text, `g` from offset 13. -/
def callOnceProgram : Program :=
  ⟨[callOnce], ⟨[(word "main", ⟨0, 5⟩), (word "g", ⟨0, 13⟩)]⟩, _, rfl⟩

theorem load_callOnce : Program.load [callOnce] = .ok callOnceProgram := by
  have h : (Table.build [callOnce]).toOption =
      some ⟨[(word "main", ⟨0, 5⟩), (word "g", ⟨0, 13⟩)]⟩ := by
    decide +kernel
  unfold Program.load
  cases hb : Table.build [callOnce] with
  | error f =>
    rw [hb] at h
    cases h
  | ok t =>
    rw [hb] at h
    cases h
    rfl

theorem session_callOnce :
    Session.load [callOnce] false = .ok ⟨callOnceProgram, false, 0, .initial⟩ :=
  congrArg (Except.map fun p => (⟨p, false, 0, Machine.initial⟩ : Session)) load_callOnce

/-- The program of `threeWays`: `main` read from offset 68 of its text. -/
def threeWaysProgram : Program :=
  ⟨[threeWays], ⟨[(word "main", ⟨0, 68⟩)]⟩, _, rfl⟩

theorem load_threeWays : Program.load [threeWays] = .ok threeWaysProgram := by
  have h : (Table.build [threeWays]).toOption = some ⟨[(word "main", ⟨0, 68⟩)]⟩ := by
    decide +kernel
  unfold Program.load
  cases hb : Table.build [threeWays] with
  | error f =>
    rw [hb] at h
    cases h
  | ok t =>
    rw [hb] at h
    cases h
    rfl

/-- A result that is a register when `c` holds and a failure otherwise ends a run with that
register, or with no value. -/
theorem ends_ite (c : Prop) [Decidable c] (k : Nat) :
    Ends (if c then .ok k else .fail) (.done (if c then some k else none)) := by
  by_cases h : c
  · rw [if_pos h, if_pos h]
    exact .ok k
  · rw [if_neg h, if_neg h]
    exact .fail

/-- **The sample programs compute what their comments say**, from every register, whether the
session shows its displays or not: `main` of `halving` halves an even register and gives no
value for an odd one, and its helpers `zero`, `not` and `assert_zero` give zero, the negation
of the register read as a truth value, and zero or no value; `main` of `doubling` doubles the
register; and `main` of `threeWays` takes three away when it can, gives zero on two, and adds
one to zero and one. -/
theorem samples_compute (debug : Bool) :
    (∃ s, Session.load [halving] debug = .ok s ∧ ∀ n : Nat,
      s.Returns (word "main") n (if n % 2 = 0 then some (n / 2) else none) ∧
      s.Returns (word "zero") n (some 0) ∧
      s.Returns (word "not") n (some (if n = 0 then 1 else 0)) ∧
      s.Returns (word "assert_zero") n (if n = 0 then some 0 else none)) ∧
    (∃ s, Session.load [doubling] debug = .ok s ∧
      ∀ n : Nat, s.Returns (word "main") n (some (2 * n))) ∧
    (∃ s, Session.load [threeWays] debug = .ok s ∧ ∀ n : Nat,
      s.Returns (word "main") n (some (if 3 ≤ n then n - 3 else if n = 2 then 0 else n + 1))) := by
  obtain ⟨p₇, hp₇, hz, hn, ha, hh, hm₇⟩ := halving_loads
  obtain ⟨p₆, hp₆, hd, hm₆⟩ := doubling_loads
  obtain ⟨p₈, hp₈, hm₈⟩ := threeWays_loads
  have hs₇ : Session.load [halving] debug = .ok ⟨p₇, debug, 0, .initial⟩ := by
    rw [Session.load, hp₇]
    rfl
  have hs₆ : Session.load [doubling] debug = .ok ⟨p₆, debug, 0, .initial⟩ := by
    rw [Session.load, hp₆]
    rfl
  have hs₈ : Session.load [threeWays] debug = .ok ⟨p₈, debug, 0, .initial⟩ := by
    rw [Session.load, hp₈]
    rfl
  refine ⟨⟨_, hs₇, fun n => ⟨?_, ?_, ?_, ?_⟩⟩, ⟨_, hs₆, fun n => ?_⟩, ⟨_, hs₈, fun n => ?_⟩⟩
  · exact Session.returns_of_runGroup hs₇ hm₇
      (callBody_runs hh (half_runs hz hn ha hh n _)) (ends_ite _ _)
  · exact Session.returns_of_runGroup hs₇ hz (zero_runs hz n _) (.ok 0)
  · exact Session.returns_of_runGroup hs₇ hn (not_runs hz n _) (.ok _)
  · exact Session.returns_of_runGroup hs₇ ha (assertZero_runs hz hn n _) (ends_ite _ _)
  · exact Session.returns_of_runGroup hs₆ hm₆ (callBody_runs hd (double_runs hd n _)) (.ok _)
  · exact Session.returns_of_runGroup hs₈ hm₈ (threeWays_runs n _) (.ok _)

end Samples

end Abacus
