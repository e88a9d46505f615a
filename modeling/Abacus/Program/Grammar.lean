import Abacus.Syntax.Token

/-!
# The grammar of sources

A source is a sequence of definitions, each a function name and a group: in words,
`Source ::= (Name Group)*` and `Group ::= { (Word | Group)* }`, where a name is any token that is
not reserved and a word is any token other than a single brace. The grammar is over the tokens
of a source, read from its start.

## Main definitions

* `Balanced` — the inside of a group: words other than braces, and whole groups.
* `Defines` — a source's tokens as definitions, with the names they define, in order.
-/

namespace Abacus

/-- The inside of a group: tokens other than single braces, and whole groups, in any order. -/
inductive Balanced : List Bytes → Prop
  /-- Nothing. -/
  | nil : Balanced []
  /-- A token that is not a brace, then more. -/
  | word {w : Bytes} {rest : List Bytes} :
      w ≠ openWord → w ≠ closeWord → Balanced rest → Balanced (w :: rest)
  /-- A whole group, then more. -/
  | group {inner rest : List Bytes} :
      Balanced inner → Balanced rest → Balanced (openWord :: inner ++ closeWord :: rest)

/-- A source's tokens read as definitions, with the names they define, in order. -/
inductive Defines : List Bytes → List Bytes → Prop
  /-- No definition. -/
  | nil : Defines [] []
  /-- A name, its body as a group, then more definitions. -/
  | cons {name : Bytes} {inner rest names : List Bytes} :
      isName name = true → Balanced inner → Defines rest names →
      Defines (name :: openWord :: inner ++ closeWord :: rest) (name :: names)

end Abacus
