import DirWatch.Text.Printable

/-!
# Text between quotes

A quoted text stands between single quotes, or between double quotes when it holds a single quote and no double one.
Inside, the quote in use and the backslash are escaped, tab, line feed and carriage return have escapes of their own, and
every other unprintable character is written by its code point.

An escaped text stands between double quotes in ASCII alone: what is not printable ASCII is written as one or two units of
UTF-16.
-/

namespace DirWatch.Text

/-- A number in hexadecimal, filled up with zeros. -/
def hexDigits (width n : Nat) : List Char :=
  let digits := Nat.toDigits 16 n
  List.replicate (width - digits.length) '0' ++ digits

/-- The escape that names a code point, in its shortest form. -/
def codePointEscape (n : Nat) : List Char :=
  if n < 0x100 then '\\' :: 'x' :: hexDigits 2 n
  else if n < 0x10000 then '\\' :: 'u' :: hexDigits 4 n
  else '\\' :: 'U' :: hexDigits 8 n

/-- The quote for a text: a double one only where that saves an escape. -/
def quoteFor (s : List Char) : Char :=
  if s.contains '\'' && !s.contains '"' then '"' else '\''

/-- A character as it stands inside the quotes. -/
def quoteChar (quote c : Char) : List Char :=
  if c = quote || c = '\\' then ['\\', c]
  else if c = '\t' then ['\\', 't']
  else if c = '\n' then ['\\', 'n']
  else if c = '\r' then ['\\', 'r']
  else if isPrintable c then [c]
  else codePointEscape c.toNat

/-- A text between quotes. -/
def quoted (s : String) : String :=
  let quote := quoteFor s.toList
  String.ofList (quote :: s.toList.flatMap (quoteChar quote) ++ [quote])

/-- The bytes of a text between quotes, each byte beyond ASCII as an escape. -/
def quotedBytes (s : String) : String :=
  let quote := quoteFor s.toList
  let byteText (b : UInt8) : List Char :=
    if b < 0x80 then quoteChar quote (Char.ofNat b.toNat) else codePointEscape b.toNat
  String.ofList (quote :: s.toUTF8.toList.flatMap byteText ++ [quote])

/-- The units of UTF-16 that a character takes. -/
def units16 (c : Char) : List Nat :=
  let n := c.toNat
  if n < 0x10000 then [n]
  else [0xd800 + (n - 0x10000) / 0x400, 0xdc00 + (n - 0x10000) % 0x400]

/-- A character as it stands inside the quotes. -/
def escapeChar : Char → List Char
  | '"' => ['\\', '"']
  | '\\' => ['\\', '\\']
  | '\n' => ['\\', 'n']
  | '\r' => ['\\', 'r']
  | '\t' => ['\\', 't']
  | '\x08' => ['\\', 'b']
  | '\x0c' => ['\\', 'f']
  | c =>
    if ' ' ≤ c && c ≤ '~' then [c]
    else (units16 c).flatMap fun unit => '\\' :: 'u' :: hexDigits 4 unit

/-- A text between double quotes. -/
def escaped (s : String) : String :=
  String.ofList ('"' :: s.toList.flatMap escapeChar ++ ['"'])

end DirWatch.Text
