import Abacus.Text.Basic

/-!
# Reading bytes as text

The well-formed UTF-8 sequences are those of RFC 3629: one byte below `80`, or a lead byte
followed by one to three continuation bytes `80`–`BF`, where the second byte of a sequence led
by `E0`, `ED`, `F0` or `F4` is narrowed so that no sequence is overlong, encodes a surrogate, or
goes past `10FFFF`.

`Text.ofBytes` reads a byte string from the front: where a well-formed sequence starts, it
gives that sequence's character; anywhere else the byte is kept as a stray byte and reading goes
on at the next byte. A byte that only starts an incomplete sequence is therefore stray, and so
is each continuation byte after it: no byte is dropped and none is merged into a character it
does not belong to.

## Main definitions

* `Utf8.isTail`, `Utf8.lead?` — continuation bytes, and the character at the front of a string.
* `Text.ofBytes` — the text of a byte string.
-/

namespace Abacus

namespace Utf8

/-- A continuation byte: `80` to `BF`. -/
def isTail (b : UInt8) : Bool := 0x80 ≤ b && b ≤ 0xBF

/-- The value a continuation byte adds: its low six bits. -/
def tailBits (b : UInt8) : Nat := b.toNat - 0x80

/-- The character of a sequence led by `a` with one more byte `b`, given that the pair is
well formed. -/
def two (a b : UInt8) : Char := Char.ofNat ((a.toNat - 0xC0) * 64 + tailBits b)

/-- The character of a well-formed sequence of three bytes. -/
def three (a b c : UInt8) : Char :=
  Char.ofNat ((a.toNat - 0xE0) * 4096 + tailBits b * 64 + tailBits c)

/-- The character of a well-formed sequence of four bytes. -/
def four (a b c d : UInt8) : Char :=
  Char.ofNat ((a.toNat - 0xF0) * 262144 + tailBits b * 4096 + tailBits c * 64 + tailBits d)

/-- The bounds of the second byte of a sequence led by `a`: narrower than `80`–`BF` after
`E0`, `ED`, `F0` and `F4`. -/
def secondRange (a : UInt8) : UInt8 × UInt8 :=
  if a = 0xE0 then (0xA0, 0xBF)
  else if a = 0xED then (0x80, 0x9F)
  else if a = 0xF0 then (0x90, 0xBF)
  else if a = 0xF4 then (0x80, 0x8F)
  else (0x80, 0xBF)

/-- Whether `b` may follow the lead byte `a`. -/
def isSecond (a b : UInt8) : Bool :=
  (secondRange a).1 ≤ b && b ≤ (secondRange a).2

/-- The character of the well-formed sequence led by `a` at the front of `a :: rest`, with the
number of bytes of `rest` it takes; `none` when no well-formed sequence starts there. -/
def lead? (a : UInt8) (rest : Bytes) : Option (Char × Nat) :=
  if a < 0x80 then some (Char.ofNat a.toNat, 0)
  else if 0xC2 ≤ a && a ≤ 0xDF then
    match rest with
    | b :: _ => if isTail b then some (two a b, 1) else none
    | [] => none
  else if 0xE0 ≤ a && a ≤ 0xEF then
    match rest with
    | b :: c :: _ => if isSecond a b && isTail c then some (three a b c, 2) else none
    | _ => none
  else if 0xF0 ≤ a && a ≤ 0xF4 then
    match rest with
    | b :: c :: d :: _ =>
      if isSecond a b && isTail c && isTail d then some (four a b c d, 3) else none
    | _ => none
  else none

end Utf8

namespace Text

/-- The text of a byte string: each well-formed UTF-8 sequence becomes its character, and every
other byte stays as a stray byte. -/
def ofBytes : Bytes → Text
  | [] => []
  | a :: rest =>
    match Utf8.lead? a rest with
    | some (c, n) => .char c :: ofBytes (rest.drop n)
    | none => .stray a :: ofBytes rest
termination_by s => s.length
decreasing_by
  all_goals simp only [List.length_cons, List.length_drop]
  all_goals omega

/-- Whether a byte string is well-formed UTF-8 all through. -/
def isUtf8 (s : Bytes) : Bool := (chars? (ofBytes s)).isSome

example : ofBytes [0x61, 0xC3, 0xA9] = [.char 'a', .char 'é'] := by decide +kernel
example : ofBytes [0xED, 0xA0, 0x80] = [.stray 0xED, .stray 0xA0, .stray 0x80] := by decide +kernel
example : ofBytes [0xE2, 0x82, 0x41] = [.stray 0xE2, .stray 0x82, .char 'A'] := by decide +kernel

end Text

end Abacus
