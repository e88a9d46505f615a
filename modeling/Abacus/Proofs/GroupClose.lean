import Abacus.Proofs.Lexemes
import Abacus.Machine.Step

/-!
# The close of a group, found by counting

To pass over a group, or over the rest of an alternative, the interpreter finds the `}` that
closes the innermost open group by reading tokens and keeping one counter of nested groups. Said
without the counter, that `}` is the first token at which the `}` tokens read so far outnumber the
`{` tokens read so far (`Scan.firstExcess`). Only single-brace tokens count, so a brace inside a
comment or a longer token such as `a{` or `{}` does not.

The close found is a token of the text, and reading again from its first byte gives it again,
with the same position after it: the `|` of an alternative that succeeded relies on that, since
it goes back onto the close it has already passed. When no close comes before the text ends,
the step that was passing over the group stops with the fault of an unclosed group, which names
the position the search started from and the source.

## Main definitions

* `Scan.excessAt`, `Scan.excessOver` — the first lexeme at which the closes outnumber the opens
  by more than a given number.

## Main statements

* `Scan.excessOver_eq_closeOf` — counting finds the close that nesting finds.
* `Scan.close?_eq_some` — the close found is read again from its first byte.
* `Machine.step_skip_eq_unclosed` — a step that passes over a group stops exactly when no close
  comes.
* `Scan.close?_eq_firstExcess` — the close of a group, found by counting, read back, or missing.
-/

namespace Abacus

namespace Scan

theorem countWord_singleton (w : Bytes) (l : Lexeme) :
    countWord w [l] = if l.word = w then 1 else 0 := by
  by_cases h : l.word = w <;> simp [countWord, h]

theorem countWord_cons (w : Bytes) (l : Lexeme) (ls : List Lexeme) :
    countWord w (l :: ls) = countWord w [l] + countWord w ls := by
  rw [← List.singleton_append, countWord, List.filter_append, List.length_append]
  rfl

/-! ### Counting, with `d` more closes to be read than opens -/

/-- The lexeme at index `i`, when the closes up to it outnumber the opens by more than `d`. -/
def excessAt (d : Nat) (ls : List Lexeme) (i : Nat) : Option Lexeme :=
  if countWord openWord (ls.take (i + 1)) + d < countWord closeWord (ls.take (i + 1)) then
    ls[i]?
  else none

/-- The first lexeme at which the closes read so far outnumber the opens by more than `d`. -/
def excessOver (d : Nat) (ls : List Lexeme) : Option Lexeme :=
  (List.range ls.length).findSome? (excessAt d ls)

theorem firstExcess_eq_excessOver (ls : List Lexeme) : firstExcess ls = excessOver 0 ls := rfl

section Cons

variable {d e : Nat} {l : Lexeme} {ls : List Lexeme}

/-- A lexeme that tips the count is the excess. -/
theorem excessOver_cons_head (h : countWord openWord [l] + d < countWord closeWord [l]) :
    excessOver d (l :: ls) = some l := by
  rw [excessOver, List.length_cons, List.range_succ_eq_map, List.findSome?_cons,
    show excessAt d (l :: ls) 0 = some l from if_pos h]

/-- A lexeme that does not tip the count leaves the search to the rest, with the count it
leaves: `e` more closes to be read than opens. -/
theorem excessOver_cons_tail (h : ¬countWord openWord [l] + d < countWord closeWord [l])
    (he : ∀ a b, countWord openWord [l] + a + d < countWord closeWord [l] + b ↔ a + e < b) :
    excessOver d (l :: ls) = excessOver e ls := by
  have htail : excessAt d (l :: ls) ∘ Nat.succ = excessAt e ls := by
    funext i
    rw [Function.comp, excessAt, excessAt, List.take_succ_cons, countWord_cons openWord l,
      countWord_cons closeWord l, List.getElem?_cons_succ]
    simp only [he]
  rw [excessOver, List.length_cons, List.range_succ_eq_map, List.findSome?_cons,
    show excessAt d (l :: ls) 0 = none from if_neg h, List.findSome?_map, htail]
  rfl

end Cons

/-- **Counting finds the close that nesting finds**: with `d` nested groups open, the close is
the first token at which the closes outnumber the opens by more than `d`. The induction is on
the lexemes, with the number of open groups generalised; each token moves it as it moves the
count. -/
theorem excessOver_eq_closeOf (d : Nat) (ls : List Lexeme) :
    excessOver d ls = (closeOf d ls).map Prod.fst := by
  induction ls generalizing d with
  | nil => rfl
  | cons l ls ih =>
    have hoc := openWord_ne_closeWord
    by_cases ho : l.word = openWord
    · -- one more nested group to close
      have hcount : countWord openWord [l] = 1 ∧ countWord closeWord [l] = 0 := by
        simp [countWord_singleton, ho, hoc]
      have he : ∀ a b, countWord openWord [l] + a + d < countWord closeWord [l] + b ↔
          a + (d + 1) < b := by
        intro a b
        omega
      rw [excessOver_cons_tail (by omega) he, closeOf_open ho, ih]
    by_cases hc : l.word = closeWord
    · have hcount : countWord openWord [l] = 0 ∧ countWord closeWord [l] = 1 := by
        simp [countWord_singleton, hc, Ne.symm hoc]
      cases d with
      | zero =>
        rw [excessOver_cons_head (by omega), closeOf_close_zero hc]
        rfl
      | succ d =>
        -- one nested group fewer
        have he : ∀ a b, countWord openWord [l] + a + (d + 1) < countWord closeWord [l] + b ↔
            a + d < b := by
          intro a b
          omega
        rw [excessOver_cons_tail (by omega) he, closeOf_close_succ hc, ih]
    · have hcount : countWord openWord [l] = 0 ∧ countWord closeWord [l] = 0 := by
        simp [countWord_singleton, ho, hc]
      have he : ∀ a b, countWord openWord [l] + a + d < countWord closeWord [l] + b ↔
          a + d < b := by
        intro a b
        omega
      rw [excessOver_cons_tail (by omega) he, closeOf_other ho hc, ih]

/-- The close found is a `}` token of the text from the position, and reading again from its
first byte gives it again, with the same position after it and the same rest. -/
theorem close?_eq_some {s : Bytes} {p : Nat} {c : Lexeme} (h : close? s p = some c) :
    c ∈ lexemes s p ∧ c.word = closeWord ∧ read s c.start = some (c, s.drop c.stop) := by
  rw [close?_eq] at h
  obtain ⟨⟨c', rest⟩, hcl, rfl⟩ := Option.map_eq_some_iff.1 h
  obtain ⟨pre, hls, -, hc⟩ := closeOf_eq_some_iff.1 hcl
  obtain ⟨r, hr, -⟩ := read_of_lexemes_eq_cons (lexemes_of_eq_append hls).1
  obtain ⟨hle, hlt, hrest⟩ := front_eq_some hr
  refine ⟨by rw [hls]; simp, hc, ?_⟩
  rw [hr, hrest, List.drop_drop, Nat.add_sub_cancel' (Nat.le_of_lt hlt)]

end Scan

namespace Machine

/-- **A step that passes over a group stops exactly when no close comes**: a `|` read in the
success mode, or a `{` read in the failed mode, searches from the position after it, and the
step meets the fault of an unclosed group, naming that position and the source, exactly when
the source has no close from there. -/
theorem step_skip_eq_unclosed {p : Program} {m : Machine} {l : Lexeme} {rest : Bytes}
    (hr : p.read m.pc = some (l, rest))
    (hskip : m.mode = .success ∧ Symbol.ofWord? l.word = some .bar ∨
      m.mode = .failed ∧ Symbol.ofWord? l.word = some .openBrace) :
    m.step p = .ok ⟨l, .error (.unclosedGroup l.stop (p.source m.pc.source).name)⟩ ↔
      Scan.close? (p.source m.pc.source).bytes l.stop = none := by
  have hclose : p.close? ⟨m.pc.source, l.stop⟩ =
      Scan.close? (p.source m.pc.source).bytes l.stop := Program.close?_eq p _
  rcases hskip with ⟨hm, hw⟩ | ⟨hm, hw⟩
  · simp only [step, hr, hm, succeed, hw, hclose]
    cases Scan.close? (p.source m.pc.source).bytes l.stop <;> simp
  · simp only [step, hr, hm, recover, hw, hclose]
    cases Scan.close? (p.source m.pc.source).bytes l.stop <;> simp

end Machine

namespace Scan

/-- **The close of a group, found by counting.** From any position of any text, the `}` that the
search for a close returns is the first token at which the `}` tokens read from the position
outnumber the `{` tokens. It is a `}` token of the text, and reading again from its first byte
gives it again with the same position after it. When the search finds none, a step that
searches from that position of a source (for a `|` in the success mode or a `{` in the failed
mode) stops with the fault of an unclosed group, which names the position and the source. -/
theorem close?_eq_firstExcess (s : Bytes) (p : Nat) :
    close? s p = firstExcess (lexemes s p) ∧
    (∀ c, close? s p = some c →
      c ∈ lexemes s p ∧ c.word = closeWord ∧ read s c.start = some (c, s.drop c.stop)) ∧
    ∀ (prog : Program) (m : Machine) (l : Lexeme) (rest : Bytes),
      (prog.source m.pc.source).bytes = s → prog.read m.pc = some (l, rest) → l.stop = p →
      (m.mode = .success ∧ Symbol.ofWord? l.word = some .bar ∨
        m.mode = .failed ∧ Symbol.ofWord? l.word = some .openBrace) →
      (m.step prog = .ok ⟨l, .error (.unclosedGroup p (prog.source m.pc.source).name)⟩ ↔
        close? s p = none) := by
  refine ⟨?_, fun c h => close?_eq_some h, fun prog m l rest hs hr hp hskip => ?_⟩
  · rw [close?_eq, firstExcess_eq_excessOver, excessOver_eq_closeOf]
  · rw [← hs, ← hp]
    exact Machine.step_skip_eq_unclosed hr hskip

end Scan

end Abacus
