import Abacus.Syntax.Group
import Abacus.Program.Grammar

/-!
# The token stream of a text

The scanner reads one token at a time, and the position after a token is where the next read
starts. Read that way, the text from a position is its list of lexemes, `Scan.lexemes`. This
module shows that the list is what the reads give, one token after another, and that a read
from the first byte of a listed token gives that token again, with the same position after it:
the interpreter relies on that when it goes back onto a `}` it has already passed.

The close of a group is then a function of the list alone: `Scan.closeOf` counts the brace
tokens, and the close it finds is the first `}` that follows a balanced stretch of tokens.

## Main definitions

* `Scan.closeOf` — the close of a group in a list of lexemes, with the lexemes after it.
* `Scan.Segments` — tokens that close `d` nested groups, each close after a balanced stretch.

## Main statements

* `Scan.lexemes_eq_cons` — a read gives the head of the list, and the rest is read after it.
* `Scan.lexemes_of_eq_append` — reading again from the first byte of a listed token.
* `Scan.closeFrom_eq` — the close found in the bytes is the close found in the lexemes.
* `Scan.closeOf_eq_some_iff` — the close follows exactly a balanced stretch of tokens.
-/

namespace Abacus

namespace Scan

/-! ### The gap before a token -/

/-- What the gap leaves starts with a word byte. -/
theorem isWordByte_of_drop_gapLength (c : Bool) (s : Bytes) {b : UInt8} {t : Bytes}
    (h : s.drop (gapLength c s) = b :: t) : isWordByte b = true := by
  induction s generalizing c with
  | nil => simp at h
  | cons a s ih =>
    unfold gapLength at h
    cases c with
    | true => exact ih _ (by simpa using h)
    | false =>
      by_cases hb : isBlank a = true
      · exact ih _ (by simpa [hb] using h)
      by_cases hc : a = commentMark
      · subst hc
        have hb' : isBlank commentMark = false := rfl
        exact ih _ (by simpa [hb'] using h)
      -- the gap is empty, so `a` is the word byte
      simp only [hb, hc, if_false, Bool.false_eq_true] at h
      obtain ⟨rfl, -⟩ := List.cons.inj h
      simp [isWordByte, hb, hc]

theorem gapLength_false_of_isWordByte {b : UInt8} (t : Bytes) (h : isWordByte b = true) :
    gapLength false (b :: t) = 0 := by
  have hb : isBlank b = false := by
    unfold isWordByte at h
    cases hb : isBlank b <;> simp_all
  have hc : b ≠ commentMark := by
    unfold isWordByte at h
    intro hc
    simp [hc] at h
  simp [gapLength, hb, hc]

/-! ### One read -/

theorem dropWhile_eq_drop (p : UInt8 → Bool) (t : Bytes) :
    t.dropWhile p = t.drop (t.takeWhile p).length := by
  have hsplit : t.takeWhile p ++ t.dropWhile p = t := List.takeWhile_append_dropWhile
  have h := congrArg (List.drop (t.takeWhile p).length) hsplit
  rwa [List.drop_left] at h

section Front

variable {s : Bytes} {off : Nat} {l : Lexeme} {rest : Bytes}

/-- A token ends after its position of reading, and what follows it is the text from its end. -/
theorem front_eq_some (h : front s off = some (l, rest)) :
    off ≤ l.start ∧ l.start < l.stop ∧ rest = s.drop (l.stop - off) := by
  unfold front at h
  dsimp only at h
  split at h
  · cases h
  · next b t ht =>
    cases h
    refine ⟨by simp, by simp; omega, ?_⟩
    have ht' : s.drop (gapLength false s + 1) = t := by
      rw [← List.drop_drop, ht, List.drop_one, List.tail_cons]
    simp only [List.length_cons, dropWhile_eq_drop]
    rw [← ht', List.drop_drop, List.drop_drop]
    congr 1
    omega

/-- Reading again from the first byte of the token gives the same token and the same rest. -/
theorem front_drop_start (h : front s off = some (l, rest)) :
    front (s.drop (l.start - off)) l.start = some (l, rest) := by
  unfold front at h
  dsimp only at h
  split at h
  · cases h
  · next b t ht =>
    cases h
    have hw := isWordByte_of_drop_gapLength false s ht
    simp only [Nat.add_sub_cancel_left, front, ht, gapLength_false_of_isWordByte t hw,
      List.drop_zero, Nat.add_zero]

end Front

/-! ### The list of lexemes -/

theorem lexemesFrom_of_front_none {s : Bytes} {off : Nat} (h : front s off = none) :
    lexemesFrom s off = [] := by
  rw [lexemesFrom.eq_1]
  split
  · rfl
  · simp_all

theorem lexemesFrom_of_front_some {s : Bytes} {off : Nat} {l : Lexeme} {rest : Bytes}
    (h : front s off = some (l, rest)) : lexemesFrom s off = l :: lexemesFrom rest l.stop := by
  rw [lexemesFrom.eq_1]
  split
  · simp_all
  · next l' rest' h' =>
    rw [h] at h'
    cases h'
    rfl

section Read

variable {src : Bytes} {pos : Nat} {l : Lexeme} {r : Bytes}

/-- A read gives the head of the list of lexemes, and the rest is the list after it. -/
theorem lexemes_eq_cons (h : read src pos = some (l, r)) :
    lexemes src pos = l :: lexemes src l.stop := by
  obtain ⟨h1, h2, hr⟩ := front_eq_some h
  rw [lexemes, lexemesFrom_of_front_some h, hr, List.drop_drop, lexemes,
    Nat.add_sub_cancel' (by omega)]

theorem lexemes_eq_nil (h : read src pos = none) : lexemes src pos = [] :=
  lexemesFrom_of_front_none h

theorem read_start (h : read src pos = some (l, r)) : read src l.start = some (l, r) := by
  have := front_drop_start h
  rwa [List.drop_drop, Nat.add_sub_cancel' (front_eq_some h).1] at this

/-- The list of lexemes decides what a read gives. -/
theorem read_of_lexemes_eq_cons {ls : List Lexeme} (h : lexemes src pos = l :: ls) :
    ∃ r, read src pos = some (l, r) ∧ lexemes src l.stop = ls := by
  cases hr : read src pos with
  | none => rw [lexemes_eq_nil hr] at h; cases h
  | some lr =>
    obtain ⟨l', r'⟩ := lr
    rw [lexemes_eq_cons hr, List.cons.injEq] at h
    obtain ⟨rfl, rfl⟩ := h
    exact ⟨r', rfl, rfl⟩

theorem read_eq_none_iff : read src pos = none ↔ lexemes src pos = [] := by
  constructor
  · exact lexemes_eq_nil
  · intro h
    cases hr : read src pos with
    | none => rfl
    | some lr => rw [lexemes_eq_cons hr] at h; cases h

/-- A token listed from a position is read again from its first byte, with the same rest:
going back onto a token already passed reads it the same way. -/
theorem lexemes_of_eq_append {pre post : List Lexeme} (h : lexemes src pos = pre ++ l :: post) :
    lexemes src l.start = l :: post ∧ lexemes src l.stop = post := by
  induction pre generalizing pos with
  | nil =>
    obtain ⟨r, hr, hpost⟩ := read_of_lexemes_eq_cons h
    exact ⟨by rw [lexemes_eq_cons (read_start hr), hpost], hpost⟩
  | cons l' pre ih =>
    obtain ⟨_, -, hrest⟩ := read_of_lexemes_eq_cons h
    exact ih hrest

end Read

/-! ### The close of a group, on the list of lexemes -/

/-- The `}` that closes the group around a list of lexemes, when `depth` nested groups inside it
are still open, with the lexemes after it; `none` when the list ends first. -/
def closeOf : Nat → List Lexeme → Option (Lexeme × List Lexeme)
  | _, [] => none
  | depth, l :: ls =>
    match Symbol.ofWord? l.word, depth with
    | some .openBrace, _ => closeOf (depth + 1) ls
    | some .closeBrace, 0 => some (l, ls)
    | some .closeBrace, d + 1 => closeOf d ls
    | _, _ => closeOf depth ls

theorem ofWord?_eq_openBrace {w : Bytes} : Symbol.ofWord? w = some .openBrace ↔ w = openWord :=
  Symbol.ofWord?_eq_some_iff

theorem ofWord?_eq_closeBrace {w : Bytes} :
    Symbol.ofWord? w = some .closeBrace ↔ w = closeWord :=
  Symbol.ofWord?_eq_some_iff

theorem openWord_ne_closeWord : openWord ≠ closeWord := by decide

/-- A token read as no symbol, or as a symbol other than a brace, is not a brace. -/
theorem ne_braces_of_ofWord? {w : Bytes} {o : Option Symbol} (hw : Symbol.ofWord? w = o)
    (ho : o ≠ some .openBrace) (hc : o ≠ some .closeBrace) : w ≠ openWord ∧ w ≠ closeWord :=
  ⟨fun h => ho (hw ▸ ofWord?_eq_openBrace.2 h), fun h => hc (hw ▸ ofWord?_eq_closeBrace.2 h)⟩

section CloseOf

variable {d : Nat} {l : Lexeme} {ls : List Lexeme}

@[simp] theorem closeOf_nil : closeOf d [] = none := rfl

theorem closeOf_open (h : l.word = openWord) : closeOf d (l :: ls) = closeOf (d + 1) ls := by
  simp [closeOf, ofWord?_eq_openBrace.2 h]

theorem closeOf_close_zero (h : l.word = closeWord) : closeOf 0 (l :: ls) = some (l, ls) := by
  simp [closeOf, ofWord?_eq_closeBrace.2 h]

theorem closeOf_close_succ (h : l.word = closeWord) : closeOf (d + 1) (l :: ls) = closeOf d ls := by
  simp [closeOf, ofWord?_eq_closeBrace.2 h]

/-- A token that is not a single brace is passed over. -/
theorem closeOf_other (ho : l.word ≠ openWord) (hc : l.word ≠ closeWord) :
    closeOf d (l :: ls) = closeOf d ls := by
  have ho' : Symbol.ofWord? l.word ≠ some .openBrace := mt ofWord?_eq_openBrace.1 ho
  have hc' : Symbol.ofWord? l.word ≠ some .closeBrace := mt ofWord?_eq_closeBrace.1 hc
  cases hw : Symbol.ofWord? l.word with
  | none => simp [closeOf, hw]
  | some sym => cases sym <;> cases d <;> simp_all [closeOf]

end CloseOf

/-- The close found by reading the bytes is the close found in their list of lexemes. -/
theorem closeFrom_eq (d : Nat) (s : Bytes) (off : Nat) :
    closeFrom d s off = (closeOf d (lexemesFrom s off)).map Prod.fst := by
  induction s, off using lexemesFrom.induct generalizing d with
  | case1 s off h =>
    rw [closeFrom.eq_1, lexemesFrom_of_front_none h]
    split
    · rfl
    · simp_all
  | case2 s off l rest h ih =>
    rw [closeFrom.eq_1, lexemesFrom_of_front_some h]
    split
    · simp_all
    · next l' rest' h' =>
      rw [h] at h'
      cases h'
      simp only [closeOf]
      split <;> simp_all

theorem close?_eq (src : Bytes) (pos : Nat) :
    close? src pos = (closeOf 0 (lexemes src pos)).map Prod.fst :=
  closeFrom_eq 0 _ _

/-! ### Balanced stretches -/

/-- A balanced stretch of tokens is passed over whole, at any depth. -/
theorem closeOf_append_of_balanced {ws : List Bytes} (h : Balanced ws) :
    ∀ {pre : List Lexeme} (d : Nat) (ls : List Lexeme), pre.map (·.word) = ws →
      closeOf d (pre ++ ls) = closeOf d ls := by
  induction h with
  | nil =>
    intro pre d ls hpre
    rw [List.map_eq_nil_iff.1 hpre, List.nil_append]
  | word ho hc _ ih =>
    intro pre d ls hpre
    obtain ⟨l, pre, rfl, hl, hpre⟩ := List.map_eq_cons_iff.1 hpre
    rw [List.cons_append, closeOf_other (hl ▸ ho) (hl ▸ hc), ih d ls hpre]
  | group _ _ ihi ihr =>
    intro pre d ls hpre
    obtain ⟨o, pre, rfl, ho, hpre⟩ := List.map_eq_cons_iff.1 hpre
    obtain ⟨inner, pre, rfl, hinner, hpre⟩ := List.map_eq_append_iff.1 hpre
    obtain ⟨c, rest, rfl, hc, hrest⟩ := List.map_eq_cons_iff.1 hpre
    simp only [List.cons_append, List.append_assoc]
    rw [closeOf_open ho, ihi (d + 1) _ hinner, closeOf_close_succ hc, ihr d ls hrest]

/-- The `}` after a balanced stretch closes the group. -/
theorem closeOf_balanced_close {pre : List Lexeme} {c : Lexeme} (rest : List Lexeme)
    (h : Balanced (pre.map (·.word))) (hc : c.word = closeWord) :
    closeOf 0 (pre ++ c :: rest) = some (c, rest) := by
  rw [closeOf_append_of_balanced h 0 _ rfl, closeOf_close_zero hc]

/-- `Segments d ws`: the tokens `ws` close `d` nested groups, with a balanced stretch before
each of those closes and after the last one. -/
def Segments : Nat → List Bytes → Prop
  | 0, ws => Balanced ws
  | d + 1, ws => ∃ u v, ws = u ++ closeWord :: v ∧ Balanced u ∧ Segments d v

namespace Segments

theorem cons_word {d : Nat} {w : Bytes} {ws : List Bytes} (ho : w ≠ openWord)
    (hc : w ≠ closeWord) (h : Segments d ws) : Segments d (w :: ws) := by
  cases d with
  | zero => exact .word ho hc h
  | succ d =>
    obtain ⟨u, v, rfl, hu, hv⟩ := h
    exact ⟨w :: u, v, rfl, .word ho hc hu, hv⟩

theorem cons_group {d : Nat} {u ws : List Bytes} (hu : Balanced u) (h : Segments d ws) :
    Segments d (openWord :: u ++ closeWord :: ws) := by
  cases d with
  | zero => exact .group hu h
  | succ d =>
    obtain ⟨u', v, rfl, hu', hv⟩ := h
    exact ⟨openWord :: u ++ closeWord :: u', v, by simp, .group hu hu', hv⟩

end Segments

theorem closeOf_of_segments {d : Nat} {pre : List Lexeme} {c : Lexeme} (rest : List Lexeme)
    (h : Segments d (pre.map (·.word))) (hc : c.word = closeWord) :
    closeOf d (pre ++ c :: rest) = some (c, rest) := by
  induction d generalizing pre with
  | zero => exact closeOf_balanced_close rest h hc
  | succ d ih =>
    obtain ⟨u, v, hpre, hu, hv⟩ := h
    obtain ⟨p₁, p₂, rfl, hp₁, hp₂⟩ := List.map_eq_append_iff.1 hpre
    obtain ⟨c', p₂, rfl, hc', hp₂⟩ := List.map_eq_cons_iff.1 hp₂
    rw [List.append_assoc, closeOf_append_of_balanced hu _ _ hp₁, List.cons_append,
      closeOf_close_succ hc', ih (hp₂ ▸ hv)]

/-- **The close of a group follows exactly a stretch that closes the nested groups still
open**: with `d` of them open, `d` closes each after a balanced stretch, then one more. -/
theorem closeOf_eq_some_iff {d : Nat} {ls : List Lexeme} {c : Lexeme} {rest : List Lexeme} :
    closeOf d ls = some (c, rest) ↔
      ∃ pre, ls = pre ++ c :: rest ∧ Segments d (pre.map (·.word)) ∧ c.word = closeWord := by
  constructor
  · intro h
    induction ls generalizing d with
    | nil => simp at h
    | cons l ls ih =>
      by_cases ho : l.word = openWord
      · rw [closeOf_open ho] at h
        obtain ⟨pre, rfl, ⟨u, v, hpre, hu, hv⟩, hc⟩ := ih h
        refine ⟨l :: pre, rfl, ?_, hc⟩
        rw [List.map_cons, hpre, ho]
        exact hv.cons_group hu
      by_cases hc : l.word = closeWord
      · cases d with
        | zero =>
          rw [closeOf_close_zero hc] at h
          obtain ⟨rfl, rfl⟩ := Prod.mk.inj (Option.some.inj h)
          exact ⟨[], rfl, .nil, hc⟩
        | succ d =>
          rw [closeOf_close_succ hc] at h
          obtain ⟨pre, rfl, hs, hc'⟩ := ih h
          exact ⟨l :: pre, rfl, ⟨[], pre.map (·.word), by simp [hc], .nil, hs⟩, hc'⟩
      · rw [closeOf_other ho hc] at h
        obtain ⟨pre, rfl, hs, hc'⟩ := ih h
        exact ⟨l :: pre, rfl, hs.cons_word ho hc, hc'⟩
  · rintro ⟨pre, rfl, hs, hc⟩
    exact closeOf_of_segments rest hs hc

/-- Closing `d + 1` groups is closing one, then `d` more. -/
theorem closeOf_succ_eq_some_iff {d : Nat} {ls : List Lexeme} {c : Lexeme}
    {rest : List Lexeme} :
    closeOf (d + 1) ls = some (c, rest) ↔
      ∃ c' mid, closeOf 0 ls = some (c', mid) ∧ closeOf d mid = some (c, rest) := by
  constructor
  · intro h
    obtain ⟨pre, rfl, ⟨u, v, hpre, hu, hv⟩, hc⟩ := closeOf_eq_some_iff.1 h
    obtain ⟨p₁, p₂, rfl, hp₁, hp₂⟩ := List.map_eq_append_iff.1 hpre
    obtain ⟨c', p₂, rfl, hc', hp₂⟩ := List.map_eq_cons_iff.1 hp₂
    refine ⟨c', p₂ ++ c :: rest, ?_, closeOf_of_segments rest (hp₂ ▸ hv) hc⟩
    simpa using closeOf_balanced_close (p₂ ++ c :: rest) (hp₁ ▸ hu) hc'
  · rintro ⟨c', mid, h₁, h₂⟩
    obtain ⟨p₁, rfl, hp₁, hc'⟩ := closeOf_eq_some_iff.1 h₁
    obtain ⟨p₂, rfl, hp₂, hc⟩ := closeOf_eq_some_iff.1 h₂
    refine closeOf_eq_some_iff.2 ⟨p₁ ++ c' :: p₂, by simp, ?_, hc⟩
    have hb : Balanced (p₁.map (·.word)) := hp₁
    exact ⟨_, _, by simp [hc'], hb, hp₂⟩

/-! ### Texts that close open groups -/

/-- `Closes k ls`: the lexemes `ls` close `k` groups open around them, each close found by
counting braces from just after the one before. -/
def Closes : Nat → List Lexeme → Prop
  | 0, _ => True
  | k + 1, ls => ∃ c rest, closeOf 0 ls = some (c, rest) ∧ Closes k rest

section Closes

variable {k : Nat} {l : Lexeme} {ls : List Lexeme}

@[simp] theorem closes_zero : Closes 0 ls := trivial

theorem closes_succ_iff :
    Closes (k + 1) ls ↔ ∃ c rest, closeOf 0 ls = some (c, rest) ∧ Closes k rest := Iff.rfl

theorem ne_nil_of_closes (hk : 0 < k) (h : Closes k ls) : ls ≠ [] := by
  obtain ⟨k, rfl⟩ := Nat.exists_eq_add_of_lt hk
  rintro rfl
  obtain ⟨c, rest, hc, -⟩ := h
  cases hc

/-- A token other than a brace changes nothing of what the text closes. -/
theorem closes_cons_other (ho : l.word ≠ openWord) (hc : l.word ≠ closeWord) :
    Closes k (l :: ls) ↔ Closes k ls := by
  cases k with
  | zero => simp
  | succ k => simp only [closes_succ_iff, closeOf_other ho hc]

/-- After a `{`, the text closes one more group. -/
theorem closes_of_cons_open (ho : l.word = openWord) (hk : 0 < k) (h : Closes k (l :: ls)) :
    Closes (k + 1) ls := by
  obtain ⟨k, rfl⟩ := Nat.exists_eq_add_of_lt hk
  obtain ⟨c, rest, hc, hrest⟩ := h
  rw [closeOf_open ho, Nat.zero_add, closeOf_succ_eq_some_iff] at hc
  obtain ⟨c', mid, hc', hmid⟩ := hc
  exact ⟨c', mid, hc', c, rest, hmid, hrest⟩

/-- A `}` closes the innermost of the groups. -/
theorem closes_of_cons_close (hc : l.word = closeWord) (h : Closes (k + 1) (l :: ls)) :
    Closes k ls := by
  obtain ⟨c, rest, hcl, hrest⟩ := h
  rw [closeOf_close_zero hc] at hcl
  obtain ⟨rfl, rfl⟩ := Prod.mk.inj (Option.some.inj hcl)
  exact hrest

/-- A `}` in front closes one more group. -/
theorem closes_cons_close (hc : l.word = closeWord) (h : Closes k ls) : Closes (k + 1) (l :: ls) :=
  ⟨l, ls, closeOf_close_zero hc, h⟩

/-- What follows the close found from a position still closes the outer groups. -/
theorem closes_of_closeOf {c : Lexeme} {rest : List Lexeme} (hk : 0 < k) (h : Closes k ls)
    (hc : closeOf 0 ls = some (c, rest)) : c.word = closeWord ∧ Closes (k - 1) rest := by
  obtain ⟨k, rfl⟩ := Nat.exists_eq_add_of_lt hk
  obtain ⟨c', rest', hc', hrest⟩ := h
  rw [hc] at hc'
  obtain ⟨rfl, rfl⟩ := Prod.mk.inj (Option.some.inj hc')
  exact ⟨(closeOf_eq_some_iff.1 hc).choose_spec.2.2, by simpa using hrest⟩

end Closes

end Scan

end Abacus
