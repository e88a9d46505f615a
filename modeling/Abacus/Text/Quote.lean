import Abacus.Text.Printable

/-!
# Quoted file names

Messages about a file that cannot be opened end with the file name quoted. The quote is `'`,
unless the name holds a `'` and no `"`, in which case it is `"`. Inside, a backslash and the
chosen quote are escaped with a backslash; tab, line feed and carriage return are written `\t`,
`\n` and `\r`. Every other character is written as it is when it is printable
(`Printable.isPrintable`), and otherwise as an escape of its code point in lowercase hex: `\x` and
two digits below `0x100`, `\u` and four below `0x10000`, `\U` and eight above.

## Main definitions

* `Quote.delimiter` — which quote a name gets.
* `Quote.escapeChar`, `Quote.render` — the quoted form.
-/

namespace Abacus

namespace Quote

/-- The quote character for a text: `"` when it holds a `'` and no `"`, else `'`. -/
def delimiter (cs : List Char) : Char :=
  if cs.contains '\'' && !cs.contains '"' then '"' else '\''

/-- The lowercase hex digit of a number below sixteen. -/
def hexDigit (n : Nat) : Char :=
  if n < 10 then Char.ofNat (0x30 + n) else Char.ofNat (0x57 + n)

/-- The last `width` lowercase hex digits of `n`, the most significant first. -/
def hexDigits : Nat → Nat → List Char
  | 0, _ => []
  | width + 1, n => hexDigits width (n / 16) ++ [hexDigit (n % 16)]

/-- How one character is written inside quotes delimited by `q`. -/
def escapeChar (q : Char) (c : Char) : List Char :=
  if c = '\\' then ['\\', '\\']
  else if c = q then ['\\', c]
  else if c = '\t' then ['\\', 't']
  else if c = '\n' then ['\\', 'n']
  else if c = '\r' then ['\\', 'r']
  else if Printable.isPrintable c then [c]
  else if c.toNat < 0x100 then '\\' :: 'x' :: hexDigits 2 c.toNat
  else if c.toNat < 0x10000 then '\\' :: 'u' :: hexDigits 4 c.toNat
  else '\\' :: 'U' :: hexDigits 8 c.toNat

/-- A text in quotes, with the escapes above. -/
def render (s : String) : String :=
  let q := delimiter s.toList
  String.ofList (q :: s.toList.flatMap (escapeChar q) ++ [q])

example : render "d" = "'d'" := by decide +kernel
example : render "it's" = "\"it's\"" := by decide +kernel
example : render "a\tb" = "'a\\tb'" := by decide +kernel

end Quote

end Abacus
