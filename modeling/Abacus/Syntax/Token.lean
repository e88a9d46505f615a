import Abacus.Text.Basic

/-!
# Blanks, comments and reserved tokens

A program text is bytes. Six bytes are blank: space, tab, line feed, carriage return, vertical
tab and form feed; no other byte is, whatever its meaning in Unicode. The byte `#` starts a
comment, which runs through the next line feed. Every other byte is a *word byte*, and a token
is a maximal run of word bytes.

Nine single-byte tokens are reserved: `+ - { } | # ? ! @`. Any other token, however short or
long, names a function. The comment mark is among the reserved bytes, although the scanner never
yields it as a token.

## Main definitions

* `isBlank`, `commentMark`, `lineFeed`, `isWordByte` — the byte classes.
* `Symbol`, `Symbol.ofByte?`, `Symbol.ofWord?` — the reserved tokens.
* `openWord`, `closeWord` — the two brace tokens.
* `isReserved`, `isName` — the two classes of tokens.
-/

namespace Abacus

/-- The six blank bytes: space, tab, line feed, carriage return, vertical tab, form feed. -/
def isBlank (b : UInt8) : Bool :=
  b = 0x20 || b = 0x09 || b = 0x0A || b = 0x0D || b = 0x0B || b = 0x0C

/-- The byte `#`, which starts a comment. -/
def commentMark : UInt8 := 0x23

/-- The byte that ends a comment. -/
def lineFeed : UInt8 := 0x0A

/-- A byte that belongs to a token: neither blank nor the comment mark. -/
def isWordByte (b : UInt8) : Bool := !isBlank b && b != commentMark

theorem isBlank_lineFeed : isBlank lineFeed = true := rfl

theorem isWordByte_eq_false_iff (b : UInt8) :
    isWordByte b = false ↔ isBlank b = true ∨ b = commentMark := by
  unfold isWordByte
  cases isBlank b <;> simp

/-- A reserved single-byte token. -/
inductive Symbol where
  /-- `+`: add one to the register. -/
  | plus
  /-- `-`: take one from the register, failing at zero. -/
  | minus
  /-- `{`: open a group. -/
  | openBrace
  /-- `}`: close a group. -/
  | closeBrace
  /-- `|`: separate two alternatives of a group. -/
  | bar
  /-- `#`: the comment mark, reserved but never scanned as a token. -/
  | hash
  /-- `?`: do nothing. -/
  | query
  /-- `!`: show the register. -/
  | bang
  /-- `@`: show the chain of calls. -/
  | atSign
  deriving DecidableEq, Repr

namespace Symbol

/-- The byte of a reserved token. -/
def toByte : Symbol → UInt8
  | plus => 0x2B
  | minus => 0x2D
  | openBrace => 0x7B
  | closeBrace => 0x7D
  | bar => 0x7C
  | hash => 0x23
  | query => 0x3F
  | bang => 0x21
  | atSign => 0x40

/-- The reserved token of a byte, if it is one. -/
def ofByte? (b : UInt8) : Option Symbol :=
  if b = 0x2B then some plus
  else if b = 0x2D then some minus
  else if b = 0x7B then some openBrace
  else if b = 0x7D then some closeBrace
  else if b = 0x7C then some bar
  else if b = 0x23 then some hash
  else if b = 0x3F then some query
  else if b = 0x21 then some bang
  else if b = 0x40 then some atSign
  else none

/-- The reserved token a token is, if it is one: only a single reserved byte is. -/
def ofWord? : Bytes → Option Symbol
  | [b] => ofByte? b
  | _ => none

theorem ofByte?_toByte (s : Symbol) : ofByte? s.toByte = some s := by
  cases s <;> decide

theorem toByte_of_ofByte? {b : UInt8} {s : Symbol} (h : ofByte? b = some s) : s.toByte = b := by
  unfold ofByte? at h
  repeat' split at h
  all_goals first
    | (cases h; subst_vars; rfl)
    | cases h

theorem ofWord?_eq_some_iff {w : Bytes} {s : Symbol} : ofWord? w = some s ↔ w = [s.toByte] := by
  constructor
  · intro h
    match w, h with
    | [b], h => rw [toByte_of_ofByte? h]
  · rintro rfl
    exact ofByte?_toByte s

end Symbol

/-- The token `{`. -/
def openWord : Bytes := [Symbol.openBrace.toByte]

/-- The token `}`. -/
def closeWord : Bytes := [Symbol.closeBrace.toByte]

/-- A token is reserved when it is one of the nine reserved bytes on its own. -/
def isReserved (w : Bytes) : Bool := (Symbol.ofWord? w).isSome

/-- A token names a function when it is not reserved. -/
def isName (w : Bytes) : Bool := !isReserved w

example : isReserved [0x7B] = true ∧ isReserved [0x7B, 0x7D] = false ∧ isName [] = true := by
  decide

end Abacus
