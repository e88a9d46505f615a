import Abacus.Program.Source
import Abacus.Syntax.Scan
import Abacus.Fault

/-!
# The function table

Before a program runs, each of its sources is read once from the start to find its functions.
At the top level a source holds only definitions, each a name followed by a group, its body:
`name { body }`. A body is not looked into beyond its braces, which must balance.

The table maps each function name to the address just after the name and its delimiter, which is
where the body's `{` is read when the function is called. Names are compared as bytes, and no
name may be defined twice, in one source or in two. Sources are read in order, and the table
keeps the definitions in that order.

The first malformed token stops the reading. At the top level, a `{` must follow a name, a `}`
has no group to close, any other reserved token is out of place, and a name must not follow a
name; at the end of a source no name may wait for its body and no body may be open.

## Main definitions

* `Table`, `Table.find?` — the functions of a program, in the order of definition.
* `Table.Place` — where the reading of a source stands: at the top level, or in a body.
* `Table.walk` — reading one source's tokens.
* `Table.build` — the table of a list of sources, or the first fault.
-/

namespace Abacus

/-- The functions of a program: each name with the address after it, in order of definition. -/
structure Table where
  /-- The definitions, in the order of the sources and, in each, of the text. -/
  entries : List (Bytes × Address)
  deriving DecidableEq, Repr

namespace Table

/-- The address of a function. -/
def find? (t : Table) (name : Bytes) : Option Address :=
  (t.entries.find? (·.1 == name)).map (·.2)

/-- Where the reading of a source stands. -/
inductive Place where
  /-- At the top level; `pending` is a name read whose body has not started. -/
  | top (pending : Option Bytes)
  /-- Inside a body opened just before `openedAt`, with `depth` nested groups open in it. -/
  | body (depth : Nat) (openedAt : Nat)
  deriving DecidableEq, Repr

/-- The name of the source a definition was read from, for the duplicate-name message. -/
def origin (sources : List Source) (a : Address) : String := (sources.getD a.source default).name

/-- Reads the tokens of source `src`, which is number `index` of `sources`, from `place` on.
`known` holds the definitions read so far, the latest first. -/
def walk (sources : List Source) (index : Nat) (src : Source) :
    Place → List (Bytes × Address) → List Lexeme → Except Fault (List (Bytes × Address))
  | .top none, known, [] => .ok known
  | .top (some f), _, [] => .error (.bodyMissingAtEnd f src.name)
  | .body _ p, _, [] => .error (.unclosedGroup p src.name)
  | .top pending, known, l :: ls =>
    match Symbol.ofWord? l.word, pending with
    | some .openBrace, none => .error (.unnamedGroup l.start src.name)
    | some .openBrace, some _ => walk sources index src (.body 0 l.stop) known ls
    | some .closeBrace, _ => .error (.unopenedGroup l.start src.name)
    | some s, _ => .error (.strayTopLevel s l.start src.name)
    | none, some f => .error (.bodyMissing f src.name l.word)
    | none, none =>
      match known.find? (·.1 == l.word) with
      | some (_, a) => .error (.duplicateName l.word l.start src.name (origin sources a))
      | none => walk sources index src (.top (some l.word)) ((l.word, ⟨index, l.stop⟩) :: known) ls
  | .body d p, known, l :: ls =>
    match Symbol.ofWord? l.word, d with
    | some .openBrace, _ => walk sources index src (.body (d + 1) p) known ls
    | some .closeBrace, 0 => walk sources index src (.top none) known ls
    | some .closeBrace, d + 1 => walk sources index src (.body d p) known ls
    | _, _ => walk sources index src (.body d p) known ls

/-- Reads the sources from number `index` on, after the definitions `known`. -/
def buildFrom (sources : List Source) : Nat → List Source → List (Bytes × Address) →
    Except Fault (List (Bytes × Address))
  | _, [], known => .ok known
  | index, src :: rest, known =>
    match walk sources index src (.top none) known (Scan.lexemes src.bytes 0) with
    | .error e => .error e
    | .ok known => buildFrom sources (index + 1) rest known

/-- The table of a list of sources, or the first fault found in them. -/
def build (sources : List Source) : Except Fault Table :=
  (buildFrom sources 0 sources []).map fun known => ⟨known.reverse⟩

end Table

end Abacus
