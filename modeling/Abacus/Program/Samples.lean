import Abacus.Program.Source

/-!
# Sample programs

Three programs that come with the language, each a single source given as text, under the name
that text given directly has. Two of them recurse: `double` calls itself on a register one
smaller, and `half` on a register two smaller, with helpers that recurse down to zero.

## Main definitions

* `Samples.word`, `Samples.lines` — a function name, and a text of lines, written as strings.
* `Samples.doubling` — `double` takes a register `n` to `2 * n`; `main` runs `double`.
* `Samples.halving` — `half` takes an even `n` to `n / 2` and fails on an odd one, with the
  helpers `zero`, `not` and `assert_zero`; `main` runs `half`.
* `Samples.threeWays` — `main` takes three away, else two, else adds one.
* `Samples.callOnce` — `main` calls `g`, which adds one.
-/

namespace Abacus

namespace Samples

/-- A function name written as a string: its UTF-8 bytes. -/
def word (s : String) : Bytes := s.toUTF8.toList

/-- A text of lines, each ended by a line feed, as bytes. -/
def lines (ls : List String) : Bytes := word (String.join (ls.map (· ++ "\n")))

/-- The name of text given directly rather than read from a file. -/
def textName : String := "<string>"

/-- Doubling by recursion on the register: a positive register is taken one down, doubled, and
given two more; zero is left as it is. -/
def doubling : Source := ⟨textName, lines [
  "# double: n -> 2n, by recursion on n.",
  "double \x7b",
  "  \x7b",
  "    - double + +   # n > 0: double n-1, then add two",
  "    |              # n = 0: nothing to do",
  "  \x7d",
  "\x7d",
  "",
  "main \x7b double \x7d"]⟩

/-- Halving by recursion on the register: a register of two or more is taken two down, halved,
and given one more; zero is half of itself, and one has no half. -/
def halving : Source := ⟨textName, lines [
  "# half: n -> n/2 for even n, fails for odd n.",
  "",
  "# Set the register to zero.",
  "zero \x7b \x7b - zero | \x7d \x7d",
  "",
  "# 0 -> 1, anything else -> 0.",
  "not \x7b \x7b - zero | + \x7d \x7d",
  "",
  "# Fails unless the register is zero.",
  "assert_zero \x7b not - \x7d",
  "",
  "half \x7b",
  "  \x7b",
  "    - - half +     # n >= 2",
  "    | assert_zero  # n = 0 succeeds, n = 1 fails",
  "  \x7d",
  "\x7d",
  "",
  "main \x7b half \x7d"]⟩

/-- Three alternatives tried in order: take three away, else take two away, else add one. -/
def threeWays : Source := ⟨textName, lines [
  "# Three alternatives: subtract 3, else subtract 2, else add 1.",
  "main \x7b",
  "  \x7b - - -",
  "  | - -",
  "  | +",
  "  \x7d",
  "\x7d"]⟩

/-- One call: `main` calls `g`, and `g` adds one. -/
def callOnce : Source := ⟨textName, lines [
  "main \x7b g \x7d",
  "g \x7b + \x7d"]⟩

end Samples

end Abacus
