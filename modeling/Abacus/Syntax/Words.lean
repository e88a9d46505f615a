import Abacus.Syntax.Token

/-!
# The words of a text, read the plain way

A second, plain reading of a text into tokens, to compare the scanner with: delete every comment
(a `#` outside an earlier comment, through the next line feed or to the end), counting it as a
separator, and cut what is left at blank bytes. Each word is the longest run of bytes that are
neither blank nor in a comment, given with the offset of its first byte.

## Main definitions

* `Words.mask` — for each byte, whether it belongs to a word.
* `Words.runs` — the maximal runs of marked bytes.
* `Words.ofSuffix` — the words of a text from an offset on.
-/

namespace Abacus

namespace Words

/-- For each byte of a text, whether it belongs to a word: the bytes of a comment do not, and
neither do blank bytes. `inComment` says that a comment is open at the front. -/
def mask (inComment : Bool) : Bytes → List Bool
  | [] => []
  | b :: t =>
    if inComment then false :: mask (b != lineFeed) t
    else if b = commentMark then false :: mask true t
    else if isBlank b then false :: mask false t
    else true :: mask false t

@[simp] theorem length_mask (c : Bool) (s : Bytes) : (mask c s).length = s.length := by
  induction s generalizing c with
  | nil => rfl
  | cons b t ih => simp only [mask]; split <;> (try split) <;> (try split) <;> simp [ih]

/-- The run being read, if any, as a word: its start and its bytes in order. -/
def flush : Option (Nat × Bytes) → List (Nat × Bytes)
  | some (start, rev) => [(start, rev.reverse)]
  | none => []

/-- The maximal runs of marked bytes, each with the offset of its first byte. `off` is the offset
of the first byte given, and `run` the run being read, with its start and its bytes so far, the
latest first. -/
def runs (off : Nat) (run : Option (Nat × Bytes)) : List (UInt8 × Bool) → List (Nat × Bytes)
  | [] => flush run
  | (b, true) :: t =>
    let run := match run with
      | some (start, rev) => some (start, b :: rev)
      | none => some (off, [b])
    runs (off + 1) run t
  | (_, false) :: t => flush run ++ runs (off + 1) none t

/-- The words of `s` from offset `p` on, each with the offset of its first byte. -/
def ofSuffix (s : Bytes) (p : Nat) : List (Nat × Bytes) :=
  let t := s.drop p
  runs p none (t.zip (mask false t))

example : ofSuffix [0x61, 0x23, 0x62, 0x0A, 0x63, 0x20, 0x64] 0 = [(0, [0x61]), (4, [0x63]), (6, [0x64])] := by
  decide

end Words

end Abacus
