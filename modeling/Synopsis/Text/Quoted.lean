import Synopsis.Text.Printable

/-!
# Quoted text

A text is written between single quotes, or between double quotes when it holds a single quote and
no double one. The backslash, the chosen quote, tab, newline and carriage return are escaped by a
backslash; any other character that does not print is written by its code in hexadecimal.
-/

namespace Synopsis.Text

/-- The last `width` hexadecimal digits of a number. -/
def hexDigits : Nat → Nat → List Char
  | 0, _ => []
  | width + 1, n => hexDigits width (n / 16) ++ [Nat.digitChar (n % 16)]

/-- A character by its code: two, four or eight digits. -/
def codeEscape (c : Char) : List Char :=
  let n := c.toNat
  if n < 0x100 then ['\\', 'x'] ++ hexDigits 2 n
  else if n < 0x10000 then ['\\', 'u'] ++ hexDigits 4 n
  else ['\\', 'U'] ++ hexDigits 8 n

/-- How a character is written between the quotes. -/
def quoteChar (quote c : Char) : List Char :=
  if c = quote ∨ c = '\\' then ['\\', c]
  else if c = '\t' then ['\\', 't']
  else if c = '\n' then ['\\', 'n']
  else if c = '\r' then ['\\', 'r']
  else if isPrintable c then [c]
  else codeEscape c

/-- The quote a text is written in. -/
def quoteMark (s : List Char) : Char :=
  if s.contains '\'' && !s.contains '"' then '"' else '\''

/-- The text as it is written in messages and listings. -/
def quoted (s : String) : String :=
  let quote := quoteMark s.toList
  String.ofList ([quote] ++ s.toList.flatMap (quoteChar quote) ++ [quote])

end Synopsis.Text
