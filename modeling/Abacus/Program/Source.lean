import Abacus.Text.Basic

/-!
# Sources and addresses

A program is spread over one or more *sources*, each a named byte text. A place in a program is
an *address*: the index of a source in the program's list and a byte offset in that source.
Addresses are written `source:offset`, in decimal.

## Main definitions

* `Source` — a named byte text.
* `Address`, `Address.render` — a place in a program, and how it is written.
-/

namespace Abacus

/-- A named byte text of a program. -/
structure Source where
  /-- The name used in messages: a file name, or a placeholder for text given directly. -/
  name : String
  /-- The program text. -/
  bytes : Bytes
  deriving DecidableEq, Repr, Inhabited

/-- A place in a program: a source's index in the program's list and a byte offset in it. -/
structure Address where
  /-- The index of the source. -/
  source : Nat
  /-- The byte offset in that source. -/
  offset : Nat
  deriving DecidableEq, Repr, Inhabited

namespace Address

/-- An address as it is written: `source:offset`. -/
def render (a : Address) : String := toString a.source ++ ":" ++ toString a.offset

example : render ⟨0, 12⟩ = "0:12" := rfl

end Address

end Abacus
