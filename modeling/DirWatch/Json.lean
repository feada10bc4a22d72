import DirWatch.Number.Integer
import DirWatch.Value

/-!
# Reading JSON

`Json.read?` reads one value that fills a whole text. Besides the standard it takes `NaN`, `Infinity` and `-Infinity`;
numbers with a fraction or an exponent are doubles and all others integers; of several fields with one name the last
value counts, at the place of the first.
-/

namespace DirWatch.Json

def isBlank (c : Char) : Bool :=
  c = ' ' || c = '\t' || c = '\n' || c = '\r'

def skipBlanks (s : List Char) : List Char :=
  s.dropWhile isBlank

/-- What follows a word, if the text starts with it. -/
def word? (w : String) (s : List Char) : Option (List Char) :=
  if w.toList.isPrefixOf s then some (s.drop w.length) else none

/-- The value of a hexadecimal digit. -/
def hexValue? (c : Char) : Option Nat :=
  if '0' ≤ c && c ≤ '9' then some (c.toNat - '0'.toNat)
  else if 'a' ≤ c && c ≤ 'f' then some (c.toNat - 'a'.toNat + 10)
  else if 'A' ≤ c && c ≤ 'F' then some (c.toNat - 'A'.toNat + 10)
  else none

/-- The number that four hexadecimal digits spell. -/
def hex4? : List Char → Option (Nat × List Char)
  | a :: b :: c :: d :: rest =>
    match hexValue? a, hexValue? b, hexValue? c, hexValue? d with
    | some a, some b, some c, some d => some (((a * 16 + b) * 16 + c) * 16 + d, rest)
    | _, _, _, _ => none
  | _ => none

/-- The character of an escape that names a code unit; two units that belong together make one character. -/
def unitChar (unit : Nat) (rest : List Char) : Char × List Char :=
  let pair? : Option (Char × List Char) :=
    if 0xd800 ≤ unit && unit < 0xdc00 then
      match rest with
      | '\\' :: 'u' :: rest =>
        match hex4? rest with
        | some (low, rest) =>
          if 0xdc00 ≤ low && low < 0xe000 then
            some (Char.ofNat (0x10000 + (unit - 0xd800) * 0x400 + (low - 0xdc00)), rest)
          else none
        | none => none
      | _ => none
    else none
  pair?.getD (if 0xd800 ≤ unit && unit < 0xe000 then '\uFFFD' else Char.ofNat unit, rest)

/-- The characters of a string up to its closing quote, and what follows. -/
def chars? : Nat → List Char → Option (List Char × List Char)
  | 0, _ => none
  | fuel + 1, s =>
    match s with
    | '"' :: rest => some ([], rest)
    | '\\' :: 'u' :: rest =>
      match hex4? rest with
      | none => none
      | some (unit, rest) =>
        let (c, rest) := unitChar unit rest
        (chars? fuel rest).map fun (cs, rest) => (c :: cs, rest)
    | '\\' :: c :: rest =>
      match [('"', '"'), ('\\', '\\'), ('/', '/'), ('b', '\x08'), ('f', '\x0c'), ('n', '\n'), ('r', '\r'),
          ('t', '\t')].lookup c with
      | none => none
      | some c => (chars? fuel rest).map fun (cs, rest) => (c :: cs, rest)
    | c :: rest =>
      if c.toNat < 0x20 then none else (chars? fuel rest).map fun (cs, rest) => (c :: cs, rest)
    | [] => none

/-- The number that a list of digits spells. -/
def digitsValue (digits : List Char) : Nat :=
  digits.foldl (fun n c => n * 10 + (c.toNat - '0'.toNat)) 0

/-- The digits after a point, if a point and a digit come first. -/
def fraction (s : List Char) : List Char × List Char :=
  match s with
  | '.' :: rest =>
    match rest.takeWhile Char.isDigit with
    | [] => ([], s)
    | digits => (digits, rest.dropWhile Char.isDigit)
  | _ => ([], s)

/-- The exponent, if there is a complete one. -/
def exponent? (s : List Char) : Option (Int × List Char) :=
  match s with
  | e :: rest =>
    if e = 'e' || e = 'E' then
      let (negative, rest) := match rest with
        | '-' :: rest => (true, rest)
        | '+' :: rest => (false, rest)
        | rest => (false, rest)
      match rest.takeWhile Char.isDigit with
      | [] => none
      | digits =>
        let n : Int := digitsValue digits
        some (if negative then -n else n, rest.dropWhile Char.isDigit)
    else none
  | [] => none

/-- Reads a number without its sign. -/
def number? (negative : Bool) (s : List Char) : Option (Value × List Char) :=
  let whole := s.takeWhile Char.isDigit
  let whole := if whole.head? = some '0' then ['0'] else whole
  if whole.isEmpty then none
  else
    let (decimals, rest) := fraction (s.drop whole.length)
    match decimals, exponent? rest with
    | [], none =>
      if whole.length > Integer.maxDigits then none
      else
        let n : Int := digitsValue whole
        some (.int (if negative then -n else n), rest)
    | _, exponent =>
      let (power, rest) := exponent.getD (0, rest)
      some (.float (Binary64.ofDecimal negative (digitsValue (whole ++ decimals)) (power - decimals.length)), rest)

/-- Puts a field behind the others, or its value in the place of an earlier one of its name. -/
def putField (fields : List (String × Value)) (name : String) (v : Value) : List (String × Value) :=
  if fields.any (·.1 == name) then fields.map fun f => if f.1 == name then (name, v) else f
  else fields ++ [(name, v)]

mutual

/-- Reads a value from the start of a text. Every level of nesting takes at least one character, so the length of the
text is fuel enough. -/
def value? : Nat → List Char → Option (Value × List Char)
  | 0, _ => none
  | fuel + 1, s =>
    match s with
    | '"' :: rest => (chars? (rest.length + 1) rest).map fun (cs, rest) => (.text (String.ofList cs), rest)
    | '[' :: rest =>
      match skipBlanks rest with
      | ']' :: rest => some (.list [], rest)
      | rest => (items? fuel rest).map fun (items, rest) => (.list items, rest)
    | '\x7b' :: rest =>
      match skipBlanks rest with
      | '\x7d' :: rest => some (.record [], rest)
      | rest => (fields? fuel [] rest).map fun (fields, rest) => (.record fields, rest)
    | '-' :: 'I' :: _ => (word? "-Infinity" s).map fun rest => (.float (.infinite true), rest)
    | '-' :: rest => number? true rest
    | 'n' :: _ => (word? "null" s).map fun rest => (.null, rest)
    | 't' :: _ => (word? "true" s).map fun rest => (.bool true, rest)
    | 'f' :: _ => (word? "false" s).map fun rest => (.bool false, rest)
    | 'N' :: _ => (word? "NaN" s).map fun rest => (.float .nan, rest)
    | 'I' :: _ => (word? "Infinity" s).map fun rest => (.float (.infinite false), rest)
    | s => number? false s

/-- Reads the items of a list and its closing bracket. -/
def items? : Nat → List Char → Option (List Value × List Char)
  | 0, _ => none
  | fuel + 1, s =>
    match value? fuel s with
    | none => none
    | some (v, rest) =>
      match skipBlanks rest with
      | ',' :: rest => (items? fuel (skipBlanks rest)).map fun (items, rest) => (v :: items, rest)
      | ']' :: rest => some ([v], rest)
      | _ => none

/-- Reads the fields of a record, after those read before, and its closing brace. -/
def fields? : Nat → List (String × Value) → List Char → Option (List (String × Value) × List Char)
  | 0, _, _ => none
  | fuel + 1, before, s =>
    match s with
    | '"' :: rest =>
      match chars? (rest.length + 1) rest with
      | none => none
      | some (name, rest) =>
        match skipBlanks rest with
        | ':' :: rest =>
          match value? fuel (skipBlanks rest) with
          | none => none
          | some (v, rest) =>
            let fields := putField before (String.ofList name) v
            match skipBlanks rest with
            | ',' :: rest => fields? fuel fields (skipBlanks rest)
            | '\x7d' :: rest => some (fields, rest)
            | _ => none
        | _ => none
    | _ => none

end

/-- Reads the one value of a text. -/
def read? (text : String) : Option Value :=
  let s := skipBlanks text.toList
  match value? (s.length + 1) s with
  | some (v, rest) => if (skipBlanks rest).isEmpty then some v else none
  | none => none

end DirWatch.Json
