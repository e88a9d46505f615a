import Abacus.Syntax.Token

/-!
# Reading tokens one at a time

A program is never parsed ahead of time: the interpreter reads one token at a time from a byte
position, and the position after a token is where it goes on, returns to, or records a function.

Reading from a position skips the *gap* first: blanks, and comments, each from its `#` through
the next line feed. The token is then the longest run of word bytes. What ends it is consumed
too: a blank byte, or a whole comment that starts right after the token; at the end of the text
nothing is. So the position after a token is just past its delimiter, and a later read starts
there.

A position may lie past the end of the text. Reading there finds nothing, and the position
stays; reading from inside the text finds nothing only when all that is left is gap, which is
then consumed to the end.

## Main definitions

* `Lexeme` — a token with the offset of its first byte and the position after it.
* `Scan.gapLength`, `Scan.commentLength`, `Scan.delimLength` — how much each part takes.
* `Scan.front` — the first token of a suffix, with the rest after it.
* `Scan.read` — the token at a position of a text; `Scan.endOf` — the position when none is.
* `Scan.lexemesFrom`, `Scan.lexemes` — every token from a position on.
-/

namespace Abacus

/-- A token read from a text: where its first byte is, its bytes, and the position after it and
its delimiter. -/
structure Lexeme where
  /-- The offset of the token's first byte. -/
  start : Nat
  /-- The token's bytes, never empty. -/
  word : Bytes
  /-- The position after the token and the blank or comment that ends it. -/
  stop : Nat
  deriving DecidableEq, Repr

namespace Scan

/-- The length of a comment's tail after its `#`: through the first line feed, or to the end. -/
def commentLength : Bytes → Nat
  | [] => 0
  | b :: t => if b = lineFeed then 1 else commentLength t + 1

/-- The length of the gap at the front of a text: blanks and whole comments. `inComment` says
that a comment is open, so every byte up to its line feed belongs to the gap. -/
def gapLength (inComment : Bool) : Bytes → Nat
  | [] => 0
  | b :: t =>
    if inComment then gapLength (b != lineFeed) t + 1
    else if isBlank b then gapLength false t + 1
    else if b = commentMark then gapLength true t + 1
    else 0

/-- The length of what ends a token, read from the byte after it: one blank byte, or a whole
comment, or nothing at the end of the text. -/
def delimLength : Bytes → Nat
  | [] => 0
  | b :: t => if b = commentMark then commentLength t + 1 else 1

@[simp] theorem commentLength_nil : commentLength [] = 0 := rfl
@[simp] theorem gapLength_nil (c : Bool) : gapLength c [] = 0 := rfl
@[simp] theorem delimLength_nil : delimLength [] = 0 := rfl

/-- The first token of a suffix that starts at offset `off`, with the bytes after its
delimiter; `none` when only gap is left. -/
def front (s : Bytes) (off : Nat) : Option (Lexeme × Bytes) :=
  let g := gapLength false s
  match s.drop g with
  | [] => none
  | b :: t =>
    -- the gap ends at a word byte, so `b` starts the word and the word is not empty
    let word := b :: t.takeWhile isWordByte
    let after := t.dropWhile isWordByte
    let d := delimLength after
    some (⟨off + g, word, off + g + word.length + d⟩, after.drop d)

theorem length_dropWhile_le (p : UInt8 → Bool) (l : Bytes) :
    (l.dropWhile p).length ≤ l.length := by
  induction l with
  | nil => simp
  | cons a t ih =>
    rw [List.dropWhile_cons]
    split
    · simp only [List.length_cons]; omega
    · exact Nat.le_refl _

/-- What is left after the first token is shorter than the suffix it was read from. -/
theorem length_lt_of_front {s : Bytes} {off : Nat} {l : Lexeme} {rest : Bytes}
    (h : front s off = some (l, rest)) : rest.length < s.length := by
  unfold front at h
  dsimp only at h
  split at h
  · cases h
  · next b t ht =>
    cases h
    have h1 := congrArg List.length ht
    simp only [List.length_drop, List.length_cons] at h1
    have h2 := length_dropWhile_le isWordByte t
    simp only [List.length_drop]
    omega

/-- The token at position `pos` of `src`, if any is left there. -/
def read (src : Bytes) (pos : Nat) : Option (Lexeme × Bytes) := front (src.drop pos) pos

/-- The position after a read that finds no token: the end of the text, or `pos` itself when
that lies past the end. -/
def endOf (src : Bytes) (pos : Nat) : Nat := max pos src.length

/-- Every token of a suffix that starts at offset `off`, in order. -/
def lexemesFrom (s : Bytes) (off : Nat) : List Lexeme :=
  match h : front s off with
  | none => []
  | some (l, rest) => l :: lexemesFrom rest l.stop
termination_by s.length
decreasing_by exact length_lt_of_front h

/-- Every token of `src` from position `pos` on. -/
def lexemes (src : Bytes) (pos : Nat) : List Lexeme := lexemesFrom (src.drop pos) pos

end Scan

end Abacus
