import Abacus.Program.Basic

/-!
# Function bodies as trees

The machine never builds a tree: it reads tokens and jumps. Read as a tree, the body of a
function is a group; a group is the list of its alternatives, split at its own top-level `|`
tokens; and an alternative is a sequence of items: `+`, `-`, `?`, `!`, `@`, a call of a named
function, or a nested group.

## Main definitions

* `Item` — a piece of an alternative.
* `Partial`, `readGroups` — reading the tokens of a body into its alternatives.
* `Program.body?` — the body of a function as a tree.
-/

namespace Abacus

/-- A piece of an alternative of a body. -/
inductive Item where
  /-- `+`. -/
  | plus
  /-- `-`. -/
  | minus
  /-- `?`. -/
  | query
  /-- `!`. -/
  | bang
  /-- `@`. -/
  | atSign
  /-- A call of the function of that name. -/
  | call (name : Bytes)
  /-- A nested group, as the list of its alternatives. -/
  | group (alternatives : List (List Item))
  deriving Repr

/-- A group being read: the alternatives finished so far and the items of the current one, both
the latest first. -/
structure Partial where
  /-- The finished alternatives, the latest first. -/
  done : List (List Item)
  /-- The items of the current alternative, the latest first. -/
  items : List Item

namespace Partial

/-- A group with nothing read yet. -/
def empty : Partial := ⟨[], []⟩

/-- One more item in the current alternative. -/
def add (g : Partial) (i : Item) : Partial := { g with items := i :: g.items }

/-- The current alternative ends at a `|`. -/
def next (g : Partial) : Partial := ⟨g.items.reverse :: g.done, []⟩

/-- The alternatives of a group once its `}` is read. -/
def finish (g : Partial) : List (List Item) := (g.items.reverse :: g.done).reverse

end Partial

/-- The item of a token that is neither a brace nor `|`. -/
def Item.ofWord (w : Bytes) : Item :=
  match Symbol.ofWord? w with
  | some .plus => .plus
  | some .minus => .minus
  | some .query => .query
  | some .bang => .bang
  | some .atSign => .atSign
  | _ => .call w

/-- Reads the tokens of a body after its `{`, with the groups open so far, the innermost first
and the body last; gives the body's alternatives when the body's `}` is read. -/
def readGroups : List Partial → List Bytes → Option (List (List Item))
  | _, [] => none
  | gs, w :: ws =>
    match Symbol.ofWord? w, gs with
    | some .openBrace, gs => readGroups (Partial.empty :: gs) ws
    | some .bar, g :: gs => readGroups (g.next :: gs) ws
    | some .closeBrace, [g] => some g.finish
    | some .closeBrace, g :: h :: gs => readGroups (h.add (.group g.finish) :: gs) ws
    | _, g :: gs => readGroups (g.add (Item.ofWord w) :: gs) ws
    | _, [] => none

/-- The body of a function as the alternatives of its group: read from the function's address,
where its `{` stands. -/
def Program.body? (p : Program) (name : Bytes) : Option (List (List Item)) :=
  match p.table.find? name with
  | none => none
  | some a =>
    match (Scan.lexemes (p.source a.source).bytes a.offset).map (·.word) with
    | w :: ws => if w = openWord then readGroups [Partial.empty] ws else none
    | [] => none

end Abacus
