import Abacus.Program.Table
import Abacus.Syntax.Group

/-!
# Programs

A program is a list of sources with the table of the functions they define. A run reads tokens
at any offset of any source, going back and forth between calls; so that reading at an offset
does not walk the source from its start every time, a program also keeps, for each source, its
suffix from every offset. The suffixes are a cache and nothing more: `rest_eq` says each is the
source with its first bytes dropped, so reading through them is reading the source.

## Main definitions

* `suffixList` — every suffix of a byte string, longest first.
* `Program`, `Program.load` — sources, their table and their suffixes.
* `Program.source`, `Program.rest` — a source by index, and its suffix from an offset.
* `Program.read`, `Program.close?` — the token at an address, and the close of a group.

## Main statements

* `Program.rest_eq`, `Program.read_eq`, `Program.close?_eq` — the cached reads agree with
  reading the source itself.
-/

namespace Abacus

/-- Every suffix of a byte string, longest first, down to the empty one. -/
def suffixList : Bytes → List Bytes
  | [] => [[]]
  | b :: t => (b :: t) :: suffixList t

/-- The suffix at position `k` is the string with its first `k` bytes dropped, and empty past
the end. -/
theorem getD_getElem?_suffixList (s : Bytes) (k : Nat) :
    ((suffixList s)[k]?).getD [] = s.drop k := by
  induction s generalizing k with
  | nil => cases k <;> simp [suffixList]
  | cons a t ih =>
    cases k with
    | zero => simp [suffixList]
    | succ k => simp [suffixList, ih]

/-- A program: its sources, the table of the functions they define, and the suffixes of its
sources. -/
structure Program where
  /-- The sources, in order; an address names one by its index. -/
  sources : List Source
  /-- The functions the sources define. -/
  table : Table
  /-- For each source, its suffix from each offset. -/
  suffixes : Array (Array Bytes)
  /-- The suffixes are those of the sources. -/
  suffixes_eq : suffixes = (sources.map fun s => (suffixList s.bytes).toArray).toArray

namespace Program

/-- The program of a list of sources, when they are well formed. -/
def load (sources : List Source) : Except Fault Program :=
  (Table.build sources).map fun table =>
    ⟨sources, table, (sources.map fun s => (suffixList s.bytes).toArray).toArray, rfl⟩

/-- The source at an index, or an empty one past the end. -/
def source (p : Program) (i : Nat) : Source := p.sources.getD i default

/-- Source `i` from offset `k` on. -/
def rest (p : Program) (i k : Nat) : Bytes := ((p.suffixes[i]?).bind (·[k]?)).getD []

theorem rest_eq (p : Program) (i k : Nat) : p.rest i k = (p.source i).bytes.drop k := by
  unfold rest source
  rw [p.suffixes_eq, List.getElem?_toArray, List.getElem?_map, List.getD_eq_getElem?_getD]
  cases p.sources[i]? with
  | none =>
    have empty : (default : Source).bytes = [] := rfl
    simp only [Option.map_none, Option.bind_none, Option.getD_none, empty, List.drop_nil]
  | some s =>
    simp only [Option.map_some, Option.bind_some, Option.getD_some, List.getElem?_toArray]
    exact getD_getElem?_suffixList s.bytes k

/-- The token at an address, with the rest of its source after it. -/
def read (p : Program) (a : Address) : Option (Lexeme × Bytes) :=
  Scan.front (p.rest a.source a.offset) a.offset

theorem read_eq (p : Program) (a : Address) :
    p.read a = Scan.read (p.source a.source).bytes a.offset := by
  simp only [read, rest_eq, Scan.read]

/-- The close of a group opened just before an address. -/
def close? (p : Program) (a : Address) : Option Lexeme :=
  Scan.closeFrom 0 (p.rest a.source a.offset) a.offset

theorem close?_eq (p : Program) (a : Address) :
    p.close? a = Scan.close? (p.source a.source).bytes a.offset := by
  simp only [close?, rest_eq, Scan.close?]

end Program

end Abacus
