import DirWatch.Text.Split

/-!
# Integers in text

Every script with decimal digits of its own has them in a row from zero to nine. An integer is an optional sign and
digits, with single underscores between digits, and blanks around it do not count. `readSetting?` is the form that
settings take: digits of ASCII, and a fraction of zeros may follow. `readArgument?` is the form that arguments take:
digits of every script, and no fraction.
-/

namespace DirWatch

namespace Text

/-- The zeros of all scripts, by Unicode 14. -/
def zeros : List Nat := [
  0x30, 0x660, 0x6f0, 0x7c0, 0x966, 0x9e6, 0xa66, 0xae6, 0xb66, 0xbe6, 0xc66, 0xce6, 0xd66, 0xde6, 0xe50, 0xed0,
  0xf20, 0x1040, 0x1090, 0x17e0, 0x1810, 0x1946, 0x19d0, 0x1a80, 0x1a90, 0x1b50, 0x1bb0, 0x1c40, 0x1c50, 0xa620,
  0xa8d0, 0xa900, 0xa9d0, 0xa9f0, 0xaa50, 0xabf0, 0xff10, 0x104a0, 0x10d30, 0x11066, 0x110f0, 0x11136, 0x111d0,
  0x112f0, 0x11450, 0x114d0, 0x11650, 0x116c0, 0x11730, 0x118e0, 0x11950, 0x11c50, 0x11d50, 0x11da0, 0x16a60, 0x16ac0,
  0x16b50, 0x1d7ce, 0x1d7d8, 0x1d7e2, 0x1d7ec, 0x1d7f6, 0x1e140, 0x1e2f0, 0x1e950, 0x1fbf0]

/-- The value of a decimal digit of any script. -/
def digitValue? (c : Char) : Option Nat :=
  let n := c.toNat
  (zeros.find? fun first => first ≤ n && n < first + 10).map (n - ·)

/-- The value of a decimal digit of ASCII. -/
def asciiDigitValue? (c : Char) : Option Nat :=
  if '0' ≤ c && c ≤ '9' then some (c.toNat - '0'.toNat) else none

end Text

namespace Integer

/-- The values of the digits of a text, single underscores between them left out. -/
def digits? (value? : Char → Option Nat) : List Char → Option (List Nat)
  | [] => none
  | c :: rest =>
    match value? c, rest with
    | none, _ => none
    | some d, [] => some [d]
    | some d, '_' :: rest => (digits? value? rest).map (d :: ·)
    | some d, rest => (digits? value? rest).map (d :: ·)

/-- The number that digits spell. -/
def ofDigits (digits : List Nat) : Nat :=
  digits.foldl (fun n d => n * 10 + d) 0

/-- Takes the sign off a text; `true` stands for minus. -/
def splitSign : List Char → Bool × List Char
  | '-' :: rest => (true, rest)
  | '+' :: rest => (false, rest)
  | s => (false, s)

/-- An integer in text may have this many digits, unless it is one of the settings. -/
def maxDigits : Nat := 4300

/-- Reads a sign and digits. -/
def signed? (value? : Char → Option Nat) (s : List Char) : Option Int :=
  let (negative, s) := splitSign s
  (digits? value? s).map fun digits =>
    let n : Int := ofDigits digits
    if negative then -n else n

/-- A text without a point and zeros at its end. -/
def dropZeroFraction (s : List Char) : List Char :=
  let whole := s.takeWhile (· != '.')
  match s.dropWhile (· != '.') with
  | '.' :: zeros => if !zeros.isEmpty && zeros.all (· = '0') then whole else s
  | _ => s

/-- Reads an integer of the settings. -/
def readSetting? (text : String) : Option Int :=
  signed? Text.asciiDigitValue? (dropZeroFraction (Text.trim Text.isWhiteSpace text.toList))

/-- Reads an integer argument. -/
def readArgument? (text : String) : Option Int :=
  let s := Text.trim Text.isBlank text.toList
  if (s.filter fun c => (Text.digitValue? c).isSome).length > maxDigits then none
  else signed? Text.digitValue? s

end Integer

end DirWatch
