import Abacus.Proofs.Lexemes
import Abacus.Syntax.Words

/-!
# The scanner reads the plain words

`Abacus.Syntax.Words` reads a text the plain way: mark the bytes that belong to a word (neither
blank nor inside a comment), then take the maximal runs of marked bytes. The scanner reads one
token at a time from a position and never looks back, so from any position, even one inside a
token or a comment, or past the end, it reads the words of the suffix from there, each with
the offset of its first byte.

Both readings are cut into the same parts. A read passes over a gap, then a token, then the
delimiter that ends it; over the gap and the delimiter no byte is marked and no comment is left
open, and over the token every byte is. So the runs of marked bytes follow the reads one for one.

Where a read leaves the position follows from its parts: one past the token's last byte when a
blank byte follows it, just past the line feed that ends a comment when a `#` follows it (or at
the end of the text when no line feed comes), and at the end of the text when nothing does.

## Main statements

* `Words.mask_gap`, `Words.mask_comment`, `Words.mask_word` — the marks over each part of a read.
* `Scan.front_parts` — a read, part by part.
* `Scan.lexemesFrom_eq_runs` — the lexemes of a suffix are its runs of marked bytes.
* `Scan.lexemes_eq_words` — the scanner reads the plain words, and where each read stops.
-/

namespace Abacus

/-! ### The lengths of the parts of a read -/

namespace Scan

theorem commentLength_le (t : Bytes) : commentLength t ≤ t.length := by
  induction t with
  | nil => simp
  | cons b t ih =>
    unfold commentLength
    split <;> simp only [List.length_cons] <;> omega

theorem gapLength_le (c : Bool) (t : Bytes) : gapLength c t ≤ t.length := by
  induction t generalizing c with
  | nil => simp
  | cons b t ih =>
    have h₁ := ih (b != lineFeed)
    have h₂ := ih false
    have h₃ := ih true
    unfold gapLength
    split
    · simp only [List.length_cons]; omega
    · split
      · simp only [List.length_cons]; omega
      · split <;> simp only [List.length_cons] <;> omega

/-- A comment's tail runs through its first line feed, or to the end when there is none. -/
theorem commentLength_eq (t : Bytes) :
    commentLength t = if lineFeed ∈ t then t.idxOf lineFeed + 1 else t.length := by
  induction t with
  | nil => simp
  | cons b t ih =>
    by_cases hb : b = lineFeed
    · subst hb
      simp [commentLength]
    · have hne : (b == lineFeed) = false := beq_false_of_ne hb
      have hmem : lineFeed ∈ b :: t ↔ lineFeed ∈ t := by
        simp only [List.mem_cons, or_iff_right (Ne.symm hb)]
      simp only [commentLength, hb, if_false, ih, hmem, List.idxOf_cons, hne, cond_false,
        List.length_cons]
      split <;> rfl

end Scan

/-! ### The marks over each part of a read -/

namespace Words

theorem commentMark_not_blank : isBlank commentMark = false := rfl

/-- Over a gap no byte is marked, and after it no comment is open. -/
theorem mask_gap (c : Bool) (t : Bytes) :
    mask c t = List.replicate (Scan.gapLength c t) false ++
      mask false (t.drop (Scan.gapLength c t)) := by
  induction t generalizing c with
  | nil => cases c <;> rfl
  | cons b t ih =>
    cases c with
    | true => simp [mask, Scan.gapLength, ih (b != lineFeed), List.replicate_succ]
    | false =>
      by_cases hb : isBlank b = true
      · -- a blank byte; the comment mark is not one
        have hc : b ≠ commentMark := fun h => by rw [h, commentMark_not_blank] at hb; cases hb
        simp [mask, Scan.gapLength, hb, hc, ih false, List.replicate_succ]
      · by_cases hc : b = commentMark
        · subst hc
          simp [mask, Scan.gapLength, commentMark_not_blank, ih true, List.replicate_succ]
        · simp [mask, Scan.gapLength, hb, hc]

/-- Over the tail of a comment no byte is marked, and after its line feed no comment is open. -/
theorem mask_comment (t : Bytes) :
    mask true t = List.replicate (Scan.commentLength t) false ++
      mask false (t.drop (Scan.commentLength t)) := by
  induction t with
  | nil => rfl
  | cons b t ih =>
    by_cases hb : b = lineFeed
    · subst hb
      simp [mask, Scan.commentLength]
    · have hb' : (b != lineFeed) = true := bne_iff_ne.2 hb
      simp [mask, Scan.commentLength, hb, hb', ih, List.replicate_succ]

/-- Over word bytes outside a comment every byte is marked. -/
theorem mask_word {w : Bytes} (hw : ∀ b ∈ w, isWordByte b = true) (t : Bytes) :
    mask false (w ++ t) = List.replicate w.length true ++ mask false t := by
  induction w with
  | nil => rfl
  | cons b w ih =>
    have hb := hw b List.mem_cons_self
    have hblank : isBlank b = false := by
      unfold isWordByte at hb
      cases h : isBlank b <;> simp_all
    have hc : b ≠ commentMark := by
      intro h
      simp [isWordByte, h] at hb
    simp [mask, hblank, hc, ih fun x hx => hw x (List.mem_cons_of_mem b hx), List.replicate_succ]

/-! ### Runs over each part of a read -/

/-- Unmarked bytes, read with no run open, leave none open. -/
theorem runs_unmarked (off : Nat) {xs : Bytes} {n : Nat} (hn : xs.length = n)
    (ps : List (UInt8 × Bool)) :
    runs off none (xs.zip (List.replicate n false) ++ ps) = runs (off + n) none ps := by
  induction xs generalizing off n with
  | nil =>
    subst hn
    rfl
  | cons x xs ih =>
    subst hn
    rw [List.length_cons, List.replicate_succ, List.zip_cons_cons, List.cons_append]
    rw [runs, flush, List.nil_append, ih (off + 1) rfl]
    congr 1
    omega

/-- Marked bytes extend the run open. -/
theorem runs_marked (off start : Nat) (rev : Bytes) {w : Bytes} {n : Nat} (hn : w.length = n)
    (ps : List (UInt8 × Bool)) :
    runs off (some (start, rev)) (w.zip (List.replicate n true) ++ ps) =
      runs (off + n) (some (start, w.reverse ++ rev)) ps := by
  induction w generalizing off n rev with
  | nil =>
    subst hn
    rfl
  | cons b w ih =>
    subst hn
    rw [List.length_cons, List.replicate_succ, List.zip_cons_cons, List.cons_append, runs,
      ih (off + 1) (b :: rev) rfl]
    simp only [List.reverse_cons, List.append_assoc, List.singleton_append]
    congr 1
    omega

/-- A prefix that is not marked and closes every comment is passed over. -/
theorem runs_skip {c : Bool} {t : Bytes} {n : Nat}
    (hmask : mask c t = List.replicate n false ++ mask false (t.drop n)) (hn : n ≤ t.length)
    (off : Nat) :
    runs off none (t.zip (mask c t)) =
      runs (off + n) none ((t.drop n).zip (mask false (t.drop n))) := by
  have hlen : (t.take n).length = n := List.length_take_of_le hn
  calc runs off none (t.zip (mask c t))
      = runs off none ((t.take n ++ t.drop n).zip
          (List.replicate n false ++ mask false (t.drop n))) := by
        rw [List.take_append_drop, hmask]
    _ = runs off none ((t.take n).zip (List.replicate n false) ++
          (t.drop n).zip (mask false (t.drop n))) := by
        rw [List.zip_append (by rw [hlen, List.length_replicate])]
    _ = runs (off + n) none ((t.drop n).zip (mask false (t.drop n))) :=
        runs_unmarked off hlen _

/-- What ends a token ends its run: one blank byte, a whole comment, or the end of the text. -/
theorem runs_delim (off start : Nat) (rev : Bytes) {after : Bytes}
    (hafter : ∀ b v, after = b :: v → isWordByte b = false) :
    runs off (some (start, rev)) (after.zip (mask false after)) =
      (start, rev.reverse) :: runs (off + Scan.delimLength after) none
        ((after.drop (Scan.delimLength after)).zip
          (mask false (after.drop (Scan.delimLength after)))) := by
  cases after with
  | nil => rfl
  | cons b v =>
    rcases (isWordByte_eq_false_iff b).1 (hafter b v rfl) with hb | hc
    · -- a blank byte
      have hc : b ≠ commentMark := fun h => by rw [h, commentMark_not_blank] at hb; cases hb
      simp only [mask, hc, hb, if_false, if_true, Bool.false_eq_true, List.zip_cons_cons, runs,
        flush, Scan.delimLength, List.drop_one, List.tail_cons, List.singleton_append]
    · -- a comment, through its line feed
      subst hc
      simp only [mask, if_true, Bool.false_eq_true, if_false, List.zip_cons_cons, runs, flush,
        Scan.delimLength, List.drop_succ_cons, List.singleton_append]
      rw [runs_skip (mask_comment v) (Scan.commentLength_le v),
        show off + 1 + Scan.commentLength v = off + (Scan.commentLength v + 1) by omega]

end Words

/-! ### A read, part by part -/

namespace Scan

section Front

variable {t : Bytes} {off : Nat} {l : Lexeme} {rest : Bytes}

/-- **A read, part by part**: past the gap, the token is a maximal run of word bytes, and its
delimiter starts with no word byte; the position after the read is past the delimiter. -/
theorem front_parts (h : front t off = some (l, rest)) :
    ∃ after, l.start = off + gapLength false t ∧ t.drop (gapLength false t) = l.word ++ after ∧
      l.word ≠ [] ∧ (∀ b ∈ l.word, isWordByte b = true) ∧
      (∀ b v, after = b :: v → isWordByte b = false) ∧
      l.stop = l.start + l.word.length + delimLength after ∧
      rest = after.drop (delimLength after) := by
  unfold front at h
  dsimp only at h
  split at h
  · cases h
  · next b u hu =>
    cases h
    refine ⟨u.dropWhile isWordByte, rfl, ?_, List.cons_ne_nil _ _, ?_, ?_, rfl, rfl⟩
    · rw [hu, List.cons_append, List.takeWhile_append_dropWhile]
    · intro x hx
      rcases List.mem_cons.1 hx with rfl | hx
      · exact isWordByte_of_drop_gapLength false t hu
      · exact List.all_eq_true.1 List.all_takeWhile x hx
    · intro x v hv
      have hne : u.dropWhile isWordByte ≠ [] := by
        rw [hv]
        exact List.cons_ne_nil x v
      have hhead := List.head_dropWhile_not isWordByte hne
      simpa only [hv, List.head_cons] using hhead

end Front

theorem runs_front {t : Bytes} {off : Nat} {l : Lexeme} {rest : Bytes}
    (h : front t off = some (l, rest)) :
    Words.runs off none (t.zip (Words.mask false t)) =
      (l.start, l.word) :: Words.runs l.stop none (rest.zip (Words.mask false rest)) := by
  obtain ⟨after, hstart, hdrop, hne, hw, hafter, hstop, hrest⟩ := front_parts h
  obtain ⟨b, w, hbw⟩ := List.exists_cons_of_ne_nil hne
  have hmask : Words.mask false (l.word ++ after) =
      true :: (List.replicate w.length true ++ Words.mask false after) := by
    rw [Words.mask_word hw after, hbw, List.length_cons, List.replicate_succ, List.cons_append]
  -- the gap, then the token's first byte opens a run, the rest of it extends the run, and the
  -- delimiter closes it
  calc Words.runs off none (t.zip (Words.mask false t))
      = Words.runs (off + gapLength false t) none
          ((l.word ++ after).zip (Words.mask false (l.word ++ after))) := by
        rw [Words.runs_skip (Words.mask_gap false t) (gapLength_le false t), hdrop]
    _ = Words.runs (off + gapLength false t + 1) (some (off + gapLength false t, [b]))
          (w.zip (List.replicate w.length true) ++ after.zip (Words.mask false after)) := by
        rw [hmask, hbw, List.cons_append, List.zip_cons_cons,
          List.zip_append (by rw [List.length_replicate])]
        rfl
    _ = Words.runs (off + gapLength false t + 1 + w.length)
          (some (off + gapLength false t, w.reverse ++ [b])) (after.zip (Words.mask false after)) :=
        Words.runs_marked _ _ _ rfl _
    _ = (l.start, l.word) :: Words.runs l.stop none (rest.zip (Words.mask false rest)) := by
        rw [Words.runs_delim _ _ _ hafter, ← hrest, hstop, hstart, hbw]
        simp only [List.reverse_append, List.reverse_reverse, List.reverse_cons, List.reverse_nil,
          List.nil_append, List.singleton_append, List.length_cons]
        congr 2
        omega

theorem runs_front_none {t : Bytes} {off : Nat} (h : front t off = none) :
    Words.runs off none (t.zip (Words.mask false t)) = [] := by
  unfold front at h
  dsimp only at h
  split at h
  · next hgap =>
    rw [Words.runs_skip (Words.mask_gap false t) (gapLength_le false t), hgap]
    rfl
  · cases h

/-- The lexemes of a suffix are its runs of marked bytes, with the same offsets. -/
theorem lexemesFrom_eq_runs (t : Bytes) (off : Nat) :
    (lexemesFrom t off).map (fun l => (l.start, l.word)) =
      Words.runs off none (t.zip (Words.mask false t)) := by
  induction t, off using lexemesFrom.induct with
  | case1 t off h => rw [lexemesFrom_of_front_none h, runs_front_none h, List.map_nil]
  | case2 t off l rest h ih => rw [lexemesFrom_of_front_some h, runs_front h, List.map_cons, ih]

/-! ### Every listed token, where it stands and where its read stops -/

section Listed

variable {s : Bytes} {p : Nat} {l : Lexeme}

/-- Every listed token stands in the text at its offset, a maximal run of word bytes followed by
its delimiter, which the position after it is past. -/
theorem lexeme_parts (h : l ∈ lexemes s p) :
    ∃ after, s.drop l.start = l.word ++ after ∧ l.word ≠ [] ∧
      (∀ b ∈ l.word, isWordByte b = true) ∧ (∀ b v, after = b :: v → isWordByte b = false) ∧
      l.stop = l.start + l.word.length + delimLength after := by
  obtain ⟨pre, post, hsplit⟩ := List.append_of_mem h
  obtain ⟨r, hr, -⟩ := read_of_lexemes_eq_cons (lexemes_of_eq_append hsplit).1
  obtain ⟨after, hstart, hdrop, hne, hw, hafter, hstop, -⟩ := front_parts hr
  -- read from its own first byte, a token has no gap before it
  have hgap : gapLength false (s.drop l.start) = 0 := by omega
  rw [hgap, List.drop_zero] at hdrop
  exact ⟨after, hdrop, hne, hw, hafter, hstop⟩

/-- Where the read of a listed token stops, by what follows the token: one past it after a blank
byte, just past the comment's line feed after a `#` (or at the end of the text when no line feed
comes), and at the end of the text when nothing follows. -/
theorem stop_of_mem_lexemes (h : l ∈ lexemes s p) :
    (s.drop (l.start + l.word.length) = [] → l.stop = s.length) ∧
    (∀ b v, s.drop (l.start + l.word.length) = b :: v → isBlank b = true →
      l.stop = l.start + l.word.length + 1) ∧
    (∀ v, s.drop (l.start + l.word.length) = commentMark :: v →
      (lineFeed ∈ v → l.stop = l.start + l.word.length + 1 + v.idxOf lineFeed + 1) ∧
      (lineFeed ∉ v → l.stop = s.length)) := by
  obtain ⟨after, hdrop, hne, -, -, hstop⟩ := lexeme_parts h
  have hafter : s.drop (l.start + l.word.length) = after := by
    rw [← List.drop_drop, hdrop, List.drop_left]
  have hlen : s.length = l.start + l.word.length + after.length := by
    have h₁ := congrArg List.length hdrop
    have h₂ : 0 < l.word.length := List.length_pos_iff.2 hne
    simp only [List.length_drop, List.length_append] at h₁
    omega
  rw [hafter]
  refine ⟨fun hnil => ?_, fun b v hbv hb => ?_, fun v hv => ?_⟩
  · subst hnil
    rw [hstop, hlen, delimLength_nil, List.length_nil]
  · subst hbv
    have hc : b ≠ commentMark := fun h => by rw [h, Words.commentMark_not_blank] at hb; cases hb
    rw [hstop, delimLength, if_neg hc]
  · subst hv
    rw [hstop, delimLength, if_pos rfl, commentLength_eq]
    constructor
    · intro hmem
      rw [if_pos hmem]
      omega
    · intro hmem
      rw [if_neg hmem]
      simp only [List.length_cons] at hlen
      omega

/-- The tokens read from a position start at or after it, and each after the one before. -/
theorem starts_of_lexemes_eq : ∀ {ls : List Lexeme} {pos : Nat}, lexemes s pos = ls →
    (∀ l ∈ ls, pos ≤ l.start) ∧ (ls.map (·.start)).Pairwise (· < ·)
  | [], _, _ => by simp
  | l :: ls, pos, h => by
    obtain ⟨r, hr, hrest⟩ := read_of_lexemes_eq_cons h
    obtain ⟨hpos, hlt, -⟩ := front_eq_some hr
    obtain ⟨hafter, hpair⟩ := starts_of_lexemes_eq hrest
    refine ⟨fun l' hl' => ?_, List.pairwise_cons.2 ⟨fun x hx => ?_, hpair⟩⟩
    · rcases List.mem_cons.1 hl' with rfl | hl'
      · exact hpos
      · have := hafter l' hl'
        omega
    · obtain ⟨l', hl', rfl⟩ := List.mem_map.1 hx
      have := hafter l' hl'
      show l.start < l'.start
      omega

/-- After the last token, a read finds nothing. -/
theorem read_after_lexemes (s : Bytes) (p : Nat) :
    read s (((lexemes s p).getLast?.map (·.stop)).getD p) = none := by
  cases hlast : (lexemes s p).getLast? with
  | none => exact read_eq_none_iff.2 (List.getLast?_eq_none_iff.1 hlast)
  | some l =>
    obtain ⟨pre, hpre⟩ := List.getLast?_eq_some_iff.1 hlast
    exact read_eq_none_iff.2 (lexemes_of_eq_append hpre).2

end Listed

/-- **The scanner reads the plain words.** From any position of any text, even one inside a token
or a comment, or past the end, the reads one after another give the words of the suffix from
there, each with the offset of its first byte, and then nothing. Each token is a non-empty run
of bytes that are neither blank nor `#`, at or after the position, and the offsets go up. A
read stops one past the token when a blank byte follows it, just past the line feed that ends
the comment when a `#` follows it (or at the end of the text when no line feed comes), and at
the end of the text when nothing follows. -/
theorem lexemes_eq_words (s : Bytes) (p : Nat) :
    (lexemes s p).map (fun l => (l.start, l.word)) = Words.ofSuffix s p ∧
    read s (((lexemes s p).getLast?.map (·.stop)).getD p) = none ∧
    ((lexemes s p).map (·.start)).Pairwise (· < ·) ∧
    ∀ l ∈ lexemes s p, p ≤ l.start ∧ l.word ≠ [] ∧
      (∀ b ∈ l.word, isBlank b = false ∧ b ≠ commentMark) ∧
      (s.drop (l.start + l.word.length) = [] → l.stop = s.length) ∧
      (∀ b v, s.drop (l.start + l.word.length) = b :: v → isBlank b = true →
        l.stop = l.start + l.word.length + 1) ∧
      (∀ v, s.drop (l.start + l.word.length) = commentMark :: v →
        (lineFeed ∈ v → l.stop = l.start + l.word.length + 1 + v.idxOf lineFeed + 1) ∧
        (lineFeed ∉ v → l.stop = s.length)) := by
  obtain ⟨hpos, hpair⟩ := starts_of_lexemes_eq (show lexemes s p = lexemes s p from rfl)
  refine ⟨lexemesFrom_eq_runs (s.drop p) p, read_after_lexemes s p, hpair, fun l hl => ?_⟩
  obtain ⟨-, -, hne, hw, -, -⟩ := lexeme_parts hl
  -- a word byte is neither blank nor the comment mark
  have hbytes : ∀ b ∈ l.word, isBlank b = false ∧ b ≠ commentMark := by
    intro b hb
    have hwb := hw b hb
    refine ⟨?_, fun hc => ?_⟩
    · cases hblank : isBlank b
      · rfl
      · have := (isWordByte_eq_false_iff b).2 (.inl hblank)
        rw [hwb] at this
        cases this
    · have := (isWordByte_eq_false_iff b).2 (.inr hc)
      rw [hwb] at this
      cases this
  exact ⟨hpos l hl, hne, hbytes, stop_of_mem_lexemes hl⟩

end Scan

end Abacus
