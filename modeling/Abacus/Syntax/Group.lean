import Abacus.Syntax.Scan

/-!
# The close of a group

A group opens with the token `{` and closes with the matching `}`. To jump over a group, or
over the rest of an alternative, the interpreter finds that close without running anything: it
reads tokens from just after the `{` and counts. Each `{` token opens one more nested group, and
each `}` token closes the innermost open one; the first `}` with no nested group open is the
match. Only tokens that are a single brace count: a brace inside a comment, or inside a longer
token such as `a{` or `{}`, is part of something else.

A second way to say which `}` matches counts instead of nesting: it is the first `}` token at
which the `}` tokens read so far outnumber the `{` tokens read so far.

## Main definitions

* `Scan.closeFrom` — the matching close in a suffix, with `depth` nested groups open.
* `Scan.close?` — the close that matches a group opened just before a position.
* `Scan.countWord`, `Scan.firstExcess` — the close found by counting braces.
-/

namespace Abacus

namespace Scan

/-- The `}` that closes the group around a suffix starting at offset `off`, when `depth` nested
groups inside it are still open; `none` when the text ends first. -/
def closeFrom (depth : Nat) (s : Bytes) (off : Nat) : Option Lexeme :=
  match h : front s off with
  | none => none
  | some (l, rest) =>
    match Symbol.ofWord? l.word, depth with
    | some .openBrace, _ => closeFrom (depth + 1) rest l.stop
    | some .closeBrace, 0 => some l
    | some .closeBrace, d + 1 => closeFrom d rest l.stop
    | _, _ => closeFrom depth rest l.stop
termination_by s.length
decreasing_by all_goals exact length_lt_of_front h

/-- The `}` that closes a group opened just before position `pos` of `src`. -/
def close? (src : Bytes) (pos : Nat) : Option Lexeme := closeFrom 0 (src.drop pos) pos

/-- How many of the lexemes are the token `w`. -/
def countWord (w : Bytes) (ls : List Lexeme) : Nat := (ls.filter (·.word == w)).length

/-- The first lexeme at which the `}` tokens so far outnumber the `{` tokens so far. -/
def firstExcess (ls : List Lexeme) : Option Lexeme :=
  (List.range ls.length).findSome? fun i =>
    let seen := ls.take (i + 1)
    if countWord openWord seen < countWord closeWord seen then
      ls[i]?
    else none

end Scan

end Abacus
