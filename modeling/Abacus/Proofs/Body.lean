import Abacus.Proofs.Shape
import Abacus.Semantics.Tree

/-!
# Bodies as trees, and the tokens they are read from

A tree of a body is printed back as tokens: an item as its token, or a group as `{`, its
alternatives joined by `|`, and `}`. Reading a body is the inverse of printing, on the trees a
reading gives: a call names no reserved token other than `#`, and a group has at least one
alternative.

Every balanced list of tokens, the inside of a group, is the print of such a tree, and reading
its print back gives the tree. So the body of a defined function is a tree whose print stands
between the `{` at the function's address and the `}` that closes it.

## Main definitions

* `Item.words`, `seqWords`, `altsWords` — the tokens of an item, an alternative, a group.
* `Item.Valid`, `ValidSeq`, `ValidAlts` — the trees a reading gives.

## Main statements

* `exists_alts_of_balanced` — a balanced list of tokens is the print of a tree.
* `readGroups_alts` — reading the print of a tree gives the tree.
* `Program.body?_eq_some` — the body of a defined function, and where its print stands.
-/

namespace Abacus

/-- The token `|`. -/
def barWord : Bytes := [Symbol.bar.toByte]

mutual

/-- The tokens of an item. -/
def Item.words : Item → List Bytes
  | .plus => [[Symbol.plus.toByte]]
  | .minus => [[Symbol.minus.toByte]]
  | .query => [[Symbol.query.toByte]]
  | .bang => [[Symbol.bang.toByte]]
  | .atSign => [[Symbol.atSign.toByte]]
  | .call name => [name]
  | .group alts => openWord :: altsWords alts ++ [closeWord]

/-- The tokens of an alternative. -/
def seqWords : List Item → List Bytes
  | [] => []
  | i :: is => i.words ++ seqWords is

/-- The tokens inside a group: its alternatives joined by `|`. -/
def altsWords : List (List Item) → List Bytes
  | [] => []
  | [a] => seqWords a
  | a :: b :: bs => seqWords a ++ barWord :: altsWords (b :: bs)

end

mutual

/-- An item as reading a body gives it: a call names no reserved token but `#`, and a group has
at least one alternative. -/
def Item.Valid : Item → Prop
  | .call name => ∀ s, Symbol.ofWord? name = some s → s = .hash
  | .group alts => ValidAlts alts
  | _ => True

/-- An alternative of valid items. -/
def ValidSeq : List Item → Prop
  | [] => True
  | i :: is => i.Valid ∧ ValidSeq is

/-- At least one alternative, each valid. -/
def ValidAlts : List (List Item) → Prop
  | [] => False
  | [a] => ValidSeq a
  | a :: b :: bs => ValidSeq a ∧ ValidAlts (b :: bs)

end

example : altsWords [[.plus], [.group [[.minus], []]]] =
    [[0x2B], [0x7C], [0x7B], [0x2D], [0x7C], [0x7D]] := rfl

section Words

variable {i : Item} {is a : List Item} {as : List (List Item)}

@[simp] theorem seqWords_nil : seqWords [] = [] := rfl

@[simp] theorem seqWords_cons : seqWords (i :: is) = i.words ++ seqWords is := rfl

theorem altsWords_singleton : altsWords [a] = seqWords a := rfl

theorem altsWords_cons_cons {b : List Item} :
    altsWords (a :: b :: as) = seqWords a ++ barWord :: altsWords (b :: as) := rfl

/-- An item in front of the first alternative is printed in front. -/
theorem altsWords_cons_item : altsWords ((i :: a) :: as) = i.words ++ altsWords (a :: as) := by
  cases as with
  | nil => rfl
  | cons b bs => simp [altsWords_cons_cons]

theorem validAlts_cons_item (hi : i.Valid) (h : ValidAlts (a :: as)) :
    ValidAlts ((i :: a) :: as) := by
  cases as with
  | nil => exact ⟨hi, h⟩
  | cons b bs => exact ⟨⟨hi, h.1⟩, h.2⟩

/-- The first alternative of a valid group is valid. -/
theorem ValidAlts.head (h : ValidAlts (a :: as)) : ValidSeq a := by
  cases as with
  | nil => exact h
  | cons b bs => exact h.1

end Words

/-! ### Prints are balanced, and balanced lists are prints -/

theorem Balanced.append {ws vs : List Bytes} (hw : Balanced ws) (hv : Balanced vs) :
    Balanced (ws ++ vs) := by
  induction hw with
  | nil => exact hv
  | word ho hc _ ih => exact .word ho hc ih
  | group hi _ _ ih =>
    have hg := Balanced.group hi ih
    simpa only [List.cons_append, List.append_assoc] using hg

theorem barWord_ne_openWord : barWord ≠ openWord := by decide

theorem barWord_ne_closeWord : barWord ≠ closeWord := by decide

/-- A token that reads as a call is not a brace. -/
theorem ne_braces_of_call {w : Bytes} (h : ∀ s, Symbol.ofWord? w = some s → s = .hash) :
    w ≠ openWord ∧ w ≠ closeWord :=
  ⟨fun hw => absurd (h _ (Scan.ofWord?_eq_openBrace.2 hw)) (by decide),
    fun hw => absurd (h _ (Scan.ofWord?_eq_closeBrace.2 hw)) (by decide)⟩

mutual

theorem Item.balanced_words : ∀ {i : Item}, i.Valid → Balanced i.words
  | .plus, _ => .word (by decide) (by decide) .nil
  | .minus, _ => .word (by decide) (by decide) .nil
  | .query, _ => .word (by decide) (by decide) .nil
  | .bang, _ => .word (by decide) (by decide) .nil
  | .atSign, _ => .word (by decide) (by decide) .nil
  | .call _, h => .word (ne_braces_of_call h).1 (ne_braces_of_call h).2 .nil
  | .group _, h => .group (balanced_altsWords h) .nil

theorem balanced_seqWords : ∀ {is : List Item}, ValidSeq is → Balanced (seqWords is)
  | [], _ => .nil
  | _ :: _, h => (Item.balanced_words h.1).append (balanced_seqWords h.2)

theorem balanced_altsWords : ∀ {as : List (List Item)}, ValidAlts as → Balanced (altsWords as)
  | [], h => h.elim
  | [_], h => balanced_seqWords h
  | _ :: _ :: _, h =>
    (balanced_seqWords h.1).append (.word barWord_ne_openWord barWord_ne_closeWord
      (balanced_altsWords h.2))

end

/-- A token other than a brace or `|` is printed back as itself, and reads as a valid item. -/
theorem Item.words_ofWord {w : Bytes} (ho : w ≠ openWord) (hc : w ≠ closeWord)
    (hb : w ≠ barWord) : (Item.ofWord w).words = [w] ∧ (Item.ofWord w).Valid := by
  unfold Item.ofWord
  cases hs : Symbol.ofWord? w with
  | none =>
    refine ⟨rfl, fun s h => ?_⟩
    rw [hs] at h
    cases h
  | some s =>
    have hw : w = [s.toByte] := Symbol.ofWord?_eq_some_iff.1 hs
    cases s with
    | openBrace => exact absurd hw ho
    | closeBrace => exact absurd hw hc
    | bar => exact absurd hw hb
    | hash =>
      refine ⟨rfl, fun s h => ?_⟩
      rw [hs] at h
      exact (Option.some.inj h).symm
    | plus | minus | query | bang | atSign => exact ⟨hw ▸ rfl, trivial⟩

/-- **Every balanced list of tokens is the print of a valid tree.** The induction is on the
balance: a `|` starts a new first alternative, and any other token or a whole group is put in
front of the first alternative. -/
theorem exists_alts_of_balanced {ws : List Bytes} (h : Balanced ws) :
    ∃ alts, ValidAlts alts ∧ altsWords alts = ws := by
  induction h with
  | nil => exact ⟨[[]], trivial, rfl⟩
  | @word w rest ho hc _ ih =>
    obtain ⟨alts, hv, hw⟩ := ih
    obtain ⟨a, as, rfl⟩ : ∃ a as, alts = a :: as := List.exists_cons_of_ne_nil (by
      rintro rfl
      exact hv)
    by_cases hb : w = barWord
    · refine ⟨[] :: a :: as, ⟨trivial, hv⟩, ?_⟩
      rw [hb, ← hw]
      rfl
    · obtain ⟨hword, hvalid⟩ := Item.words_ofWord ho hc hb
      refine ⟨(Item.ofWord w :: a) :: as, validAlts_cons_item hvalid hv, ?_⟩
      rw [altsWords_cons_item, hword, hw]
      rfl
  | group _ _ ihi ihr =>
    obtain ⟨inner, hvi, hwi⟩ := ihi
    obtain ⟨alts, hv, hw⟩ := ihr
    obtain ⟨a, as, rfl⟩ : ∃ a as, alts = a :: as := List.exists_cons_of_ne_nil (by
      rintro rfl
      exact hv)
    refine ⟨(.group inner :: a) :: as, validAlts_cons_item hvi hv, ?_⟩
    rw [altsWords_cons_item, hw, Item.words, hwi]
    simp only [List.cons_append, List.append_assoc, List.nil_append]

/-! ### Reading a print back -/

section Read

variable {g h : Partial} {gs : List Partial} {w : Bytes} {ws : List Bytes}

theorem readGroups_open : readGroups gs (openWord :: ws) = readGroups (Partial.empty :: gs) ws := by
  cases gs <;> rfl

theorem readGroups_bar : readGroups (g :: gs) (barWord :: ws) = readGroups (g.next :: gs) ws :=
  rfl

theorem readGroups_close_one : readGroups [g] (closeWord :: ws) = some g.finish := rfl

theorem readGroups_close_cons :
    readGroups (g :: h :: gs) (closeWord :: ws) =
      readGroups (h.add (.group g.finish) :: gs) ws := rfl

theorem readGroups_word (ho : w ≠ openWord) (hc : w ≠ closeWord) (hb : w ≠ barWord) :
    readGroups (g :: gs) (w :: ws) = readGroups (g.add (Item.ofWord w) :: gs) ws := by
  have ho' : Symbol.ofWord? w ≠ some .openBrace := mt Scan.ofWord?_eq_openBrace.1 ho
  have hc' : Symbol.ofWord? w ≠ some .closeBrace := mt Scan.ofWord?_eq_closeBrace.1 hc
  have hb' : Symbol.ofWord? w ≠ some .bar := mt Symbol.ofWord?_eq_some_iff.1 hb
  cases hs : Symbol.ofWord? w with
  | none => simp [readGroups, hs]
  | some s => cases s <;> simp_all [readGroups]

end Read

mutual

/-- Reading the tokens of a valid item adds it to the current alternative. -/
theorem readGroups_item : ∀ {i : Item} {g : Partial} {gs : List Partial} {ws : List Bytes},
    i.Valid → readGroups (g :: gs) (i.words ++ ws) = readGroups (g.add i :: gs) ws
  | .plus, _, _, _, _ => readGroups_word (by decide) (by decide) (by decide)
  | .minus, _, _, _, _ => readGroups_word (by decide) (by decide) (by decide)
  | .query, _, _, _, _ => readGroups_word (by decide) (by decide) (by decide)
  | .bang, _, _, _, _ => readGroups_word (by decide) (by decide) (by decide)
  | .atSign, _, _, _, _ => readGroups_word (by decide) (by decide) (by decide)
  | .call name, g, gs, ws, h => by
    have hb : name ≠ barWord := fun hw => absurd (h _ (Symbol.ofWord?_eq_some_iff.2 hw)) (by decide)
    have hitem : Item.ofWord name = .call name := by
      unfold Item.ofWord
      cases hs : Symbol.ofWord? name with
      | none => rfl
      | some s => rw [h s hs]
    rw [Item.words, List.singleton_append, readGroups_word (ne_braces_of_call h).1
      (ne_braces_of_call h).2 hb, hitem]
  | .group alts, g, gs, ws, h => by
    obtain ⟨g', hfin, hread⟩ := @readGroups_alts alts [] (g :: gs) (closeWord :: ws) h
    simp only [Item.words, List.cons_append, List.append_assoc, List.nil_append]
    rw [readGroups_open, show Partial.empty = ⟨[], []⟩ from rfl, hread, readGroups_close_cons, hfin]
    rfl

/-- Reading the tokens of a valid alternative adds its items to the current one. -/
theorem readGroups_seq : ∀ {is : List Item} {g : Partial} {gs : List Partial} {ws : List Bytes},
    ValidSeq is →
      readGroups (g :: gs) (seqWords is ++ ws) =
        readGroups (⟨g.done, is.reverse ++ g.items⟩ :: gs) ws
  | [], _, _, _, _ => rfl
  | i :: is, g, gs, ws, h => by
    rw [seqWords_cons, List.append_assoc, readGroups_item h.1, readGroups_seq h.2]
    simp [Partial.add]

/-- **Reading the print of a valid group gives its alternatives**, after those already read. -/
theorem readGroups_alts : ∀ {as : List (List Item)} {done : List (List Item)} {gs : List Partial}
    {ws : List Bytes}, ValidAlts as →
      ∃ g', g'.finish = done.reverse ++ as ∧
        readGroups (⟨done, []⟩ :: gs) (altsWords as ++ ws) = readGroups (g' :: gs) ws
  | [], _, _, _, h => h.elim
  | [a], done, gs, ws, h => by
    refine ⟨⟨done, a.reverse⟩, by simp [Partial.finish], ?_⟩
    rw [altsWords_singleton, readGroups_seq h, List.append_nil]
  | a :: b :: bs, done, gs, ws, h => by
    obtain ⟨g', hfin, hread⟩ := @readGroups_alts (b :: bs) (a :: done) gs ws h.2
    refine ⟨g', by rw [hfin]; simp, ?_⟩
    rw [altsWords_cons_cons, List.append_assoc, List.cons_append, readGroups_seq h.1,
      readGroups_bar]
    simpa [Partial.next] using hread

end

/-! ### The body of a defined function -/

namespace Program

variable {sources : List Source} {p : Program} {name : Bytes} {a : Address}

/-- **The body of a defined function**, and where its print stands: right after the `{` at the
function's address, up to the `}` that closes it. -/
theorem body?_eq_some (hp : load sources = .ok p) (ha : p.table.find? name = some a) :
    ∃ body o pre c rest, p.body? name = some body ∧ p.view a = o :: (pre ++ c :: rest) ∧
      o.word = openWord ∧ pre.map (·.word) = altsWords body ∧ c.word = closeWord ∧
      ValidAlts body := by
  obtain ⟨hsrc, hbuild⟩ := build_of_load hp
  obtain ⟨o, inner, c, rest, hview, ho, hb, hc⟩ := Table.find?_body hbuild ha
  have hview' : p.view a = o :: (inner ++ c :: rest) := by
    rw [view, source, hsrc, hview, List.cons_append]
  obtain ⟨body, hvalid, hwords⟩ := exists_alts_of_balanced hb
  obtain ⟨g', hfin, hread⟩ :=
    @readGroups_alts body [] [] (closeWord :: rest.map (·.word)) hvalid
  refine ⟨body, o, inner, c, rest, ?_, hview', ho, hwords.symm, hc, hvalid⟩
  have hmap : (Scan.lexemes (p.source a.source).bytes a.offset).map (·.word) =
      openWord :: (altsWords body ++ closeWord :: rest.map (·.word)) := by
    change (p.view a).map (·.word) = _
    rw [hview', hwords]
    simp [ho, hc]
  rw [body?, ha]
  simp only [hmap, if_true]
  rw [show Partial.empty = ⟨[], []⟩ from rfl, hread, readGroups_close_one, hfin]
  rfl

/-- In a loaded program, a function has a body exactly when it is defined. -/
theorem body?_eq_none_iff (hp : load sources = .ok p) :
    p.body? name = none ↔ p.table.find? name = none := by
  constructor
  · intro h
    cases ha : p.table.find? name with
    | none => rfl
    | some a =>
      obtain ⟨body, -, -, -, -, hbody, -⟩ := body?_eq_some hp ha
      rw [h] at hbody
      cases hbody
  · intro h
    rw [body?, h]

end Program

end Abacus
