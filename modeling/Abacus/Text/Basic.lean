/-!
# Text with stray bytes

Function names are raw bytes, and most of them are UTF-8. What the interpreter shows of such
data is a `Text`: a sequence of characters in which a byte that belongs to no well-formed UTF-8
sequence stands for itself, as a *stray* byte. Every message, trace line and display line is a
`Text`. A text is plain text exactly when it holds no stray byte, and its bytes are the UTF-8
encoding of its characters with every stray byte put back in its place, so no byte is lost.

## Main definitions

* `Bytes` — raw bytes.
* `Piece`, `Text` — characters and stray bytes.
* `Text.ofString`, `Text.toBytes`, `Text.toString?`.
* `Text.encode` — a text as a string, or where its first run of stray bytes starts.
-/

namespace Abacus

/-- Raw bytes, as read from a program source. -/
abbrev Bytes := List UInt8

/-- One unit of a text. -/
inductive Piece where
  /-- A character. -/
  | char (c : Char)
  /-- A byte kept as it is, because no well-formed UTF-8 sequence holds it. -/
  | stray (b : UInt8)
  deriving DecidableEq, Repr

/-- A text in which stray bytes may stand among the characters. -/
abbrev Text := List Piece

namespace Text

/-- The characters of a string, with no stray byte. -/
def ofString (s : String) : Text := s.toList.map .char

/-- The bytes of one piece: a character in UTF-8, a stray byte as itself. -/
def pieceBytes : Piece → Bytes
  | .char c => String.utf8EncodeChar c
  | .stray b => [b]

/-- The bytes of a text: characters in UTF-8, stray bytes as themselves. -/
def toBytes (t : Text) : Bytes := t.flatMap pieceBytes

/-- The characters of a text, when it holds no stray byte. -/
def chars? : Text → Option (List Char)
  | [] => some []
  | .char c :: t => (chars? t).map (c :: ·)
  | .stray _ :: _ => none

/-- The text as a string, when it holds no stray byte. -/
def toString? (t : Text) : Option String := (chars? t).map String.ofList

/-- The stray bytes at the front of a text, up to its first character. -/
def leadingStrays : Text → List UInt8
  | .stray b :: t => b :: leadingStrays t
  | _ => []

/-- The characters of a text that holds no stray byte; otherwise where its first run of stray
bytes starts, and its bytes. -/
def encodeChars : Text → Except (Nat × List UInt8) (List Char)
  | [] => .ok []
  | .char c :: t =>
    match encodeChars t with
    | .ok cs => .ok (c :: cs)
    | .error (i, run) => .error (i + 1, run)
  | t@(.stray _ :: _) => .error (0, leadingStrays t)

/-- The string of a text that holds no stray byte; otherwise where its first run of stray bytes
starts, and its bytes. -/
def encode (t : Text) : Except (Nat × List UInt8) String := (encodeChars t).map String.ofList

@[simp] theorem chars?_nil : chars? [] = some [] := rfl

@[simp] theorem chars?_char (c : Char) (t : Text) :
    chars? (.char c :: t) = (chars? t).map (c :: ·) := rfl

@[simp] theorem chars?_stray (b : UInt8) (t : Text) : chars? (.stray b :: t) = none := rfl

@[simp] theorem chars?_ofString (s : String) : chars? (ofString s) = some s.toList := by
  simp only [ofString]
  induction s.toList with
  | nil => rfl
  | cons c l ih => simp [ih]

theorem toString?_ofString (s : String) : toString? (ofString s) = some s := by
  simp [toString?]

end Text

end Abacus
