import DirWatch.Listing
import DirWatch.Number.Binary64
import DirWatch.Text.Quoted

/-!
# Values

Arguments, settings and the fields of log entries can hold any value of a data format, and an error message shows the
value that was refused. `Value.shown` is that text, `Value.json` the text of the data format, and `Value.sameAs` the
equality that takes numbers by their size, truth values counting as 0 and 1.
-/

namespace DirWatch

/-- A value of the data format, or a sequence of bytes. -/
inductive Value where
  | null
  | bool (b : Bool)
  | int (n : Int)
  | float (x : Binary64)
  | text (s : String)
  | bytes (s : String)
  | list (items : List Value)
  | record (fields : List (String × Value))
  deriving Inhabited, Repr

namespace Value

/-- The name of the type of a value, as error messages give it. -/
def typeName : Value → String
  | null => "NoneType"
  | bool _ => "bool"
  | int _ => "int"
  | float _ => "float"
  | text _ => "str"
  | bytes _ => "bytes"
  | list _ => "list"
  | record _ => "dict"

/-- The word for a truth value in a message. -/
def boolShown (b : Bool) : String :=
  if b then "True" else "False"

mutual

/-- The value as a message shows it. -/
def shown : Value → String
  | null => "None"
  | bool b => boolShown b
  | int n => toString n
  | float x => x.text
  | text s => Text.quoted s
  | bytes s => "b" ++ Text.quotedBytes s
  | list items => "[" ++ ", ".intercalate (shownAll items) ++ "]"
  | record fields => "\x7b" ++ ", ".intercalate (shownFields fields) ++ "\x7d"

def shownAll : List Value → List String
  | [] => []
  | v :: rest => v.shown :: shownAll rest

def shownFields : List (String × Value) → List String
  | [] => []
  | (name, v) :: rest => (Text.quoted name ++ ": " ++ v.shown) :: shownFields rest

end

/-- The text of a double in the data format. -/
def floatJson (x : Binary64) : String :=
  match x with
  | .infinite negative => if negative then "-Infinity" else "Infinity"
  | .nan => "NaN"
  | x => x.text

mutual

/-- The value in the data format, on one line and in ASCII. -/
def json : Value → String
  | null => "null"
  | bool b => if b then "true" else "false"
  | int n => toString n
  | float x => floatJson x
  | text s => Text.escaped s
  | bytes s => Text.escaped s
  | list items => "[" ++ ", ".intercalate (jsonAll items) ++ "]"
  | record fields => "\x7b" ++ ", ".intercalate (jsonFields fields) ++ "\x7d"

def jsonAll : List Value → List String
  | [] => []
  | v :: rest => v.json :: jsonAll rest

def jsonFields : List (String × Value) → List String
  | [] => []
  | (name, v) :: rest => (Text.escaped name ++ ": " ++ v.json) :: jsonFields rest

end

/-- The size of a number or truth value as a sign and a quotient. -/
def magnitude? : Value → Option (Int × Nat)
  | bool b => some (if b then 1 else 0, 1)
  | int n => some (n, 1)
  | float (.finite negative mantissa exponent) =>
    let (n, d) := Binary64.ratio mantissa exponent
    some (if negative then -(n : Int) else n, d)
  | _ => none

mutual

/-- Whether two values are equal. -/
def sameAs : Value → Value → Bool
  | null, null => true
  | text s, text t => s == t
  | bytes s, bytes t => s == t
  | list items, list others => sameAll items others
  | record fields, record others => fields.length == others.length && sameFields fields others
  | float (.infinite a), float (.infinite b) => a == b
  | a, b =>
    match a.magnitude?, b.magnitude? with
    | some (m, d), some (n, e) => m * e == n * d
    | _, _ => false

def sameAll : List Value → List Value → Bool
  | [], [] => true
  | v :: rest, w :: others => v.sameAs w && sameAll rest others
  | _, _ => false

def sameFields : List (String × Value) → List (String × Value) → Bool
  | [], _ => true
  | (name, v) :: rest, others =>
    (match others.lookup name with
      | some w => v.sameAs w
      | none => false) && sameFields rest others

end

/-- Whether a value counts as true: it is neither null nor false, zero or empty. -/
def holds : Value → Bool
  | null => false
  | bool b => b
  | int n => n != 0
  | float (.finite _ mantissa _) => mantissa != 0
  | float _ => true
  | text s => !s.isEmpty
  | bytes s => !s.isEmpty
  | list items => !items.isEmpty
  | record fields => !fields.isEmpty

end Value

end DirWatch
