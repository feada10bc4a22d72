/-!
# Doubles

The doubles as a sign, an integer and a power of two, so that rounding and printing are exact arithmetic. `ofRatio` is
the double nearest to a quotient, the even one of two equally near. `text` writes the fewest digits that read back, of
those the nearest to the value, and moves to an exponent outside of 10⁻⁴ to 10¹⁶.
-/

namespace DirWatch

/-- A double. A finite one is `mantissa · 2 ^ exponent` with its sign. -/
inductive Binary64 where
  | finite (negative : Bool) (mantissa : Nat) (exponent : Int)
  | infinite (negative : Bool)
  | nan
  deriving DecidableEq, Repr, Inhabited

namespace Binary64

/-- The quotient `num / den · 2 ^ shift` as a quotient of natural numbers. -/
def scale (num den : Nat) (shift : Int) : Nat × Nat :=
  if 0 ≤ shift then (num * Nat.pow 2 shift.toNat, den) else (num, den * Nat.pow 2 (-shift).toNat)

/-- The integer nearest to a quotient; a half goes to the even neighbour. -/
def roundDiv (num den : Nat) : Nat :=
  let q := num / den
  let r := num % den
  if 2 * r < den then q
  else if den < 2 * r then q + 1
  else if q % 2 = 0 then q else q + 1

/-- The double nearest to `num / den`. -/
def ofRatio (negative : Bool) (num den : Nat) : Binary64 :=
  if num = 0 then .finite negative 0 0
  else
    -- the exponent for which the mantissa has 53 bits, or one bit more
    let low : Int := (Nat.log2 num : Int) - Nat.log2 den - 53
    let wide := scale num den (-low)
    let exponent := max (if wide.1 / wide.2 < Nat.pow 2 53 then low else low + 1) (-1074)
    let (n, d) := scale num den (-exponent)
    let mantissa := roundDiv n d
    if exponent > 971 || (exponent = 971 && mantissa ≥ Nat.pow 2 53) then .infinite negative
    else if mantissa = Nat.pow 2 53 then .finite negative (Nat.pow 2 52) (exponent + 1)
    else .finite negative mantissa exponent

/-- The double nearest to `digits · 10 ^ exponent`. -/
def ofDecimal (negative : Bool) (digits : Nat) (exponent : Int) : Binary64 :=
  let magnitude := exponent + (Nat.toDigits 10 digits).length
  if digits = 0 || magnitude < -400 then .finite negative 0 0
  else if magnitude > 400 then .infinite negative
  else if 0 ≤ exponent then ofRatio negative (digits * Nat.pow 10 exponent.toNat) 1
  else ofRatio negative digits (Nat.pow 10 (-exponent).toNat)

def ofInt (n : Int) : Binary64 :=
  ofRatio (n < 0) n.natAbs 1

/-- The size of a finite double as a quotient. -/
def ratio (mantissa : Nat) (exponent : Int) : Nat × Nat :=
  scale mantissa 1 exponent

/-- The double nearest to `x · num / den`. -/
def mulRatio (x : Binary64) (num den : Nat) : Binary64 :=
  match x with
  | .finite negative mantissa exponent =>
    let (n, d) := ratio mantissa exponent
    ofRatio negative (n * num) (d * den)
  | x => x

/-- The integer that a double is, if it is one. -/
def toInt? : Binary64 → Option Int
  | .finite negative mantissa exponent =>
    let (n, d) := ratio mantissa exponent
    if n % d = 0 then some (if negative then -(n / d : Nat) else (n / d : Nat)) else none
  | _ => none

/-- The integer nearest to a finite double, a half to the even neighbour. -/
def round : Binary64 → Int
  | .finite negative mantissa exponent =>
    let (n, d) := ratio mantissa exponent
    let q := roundDiv n d
    if negative then -(q : Int) else q
  | _ => 0

/-! ## Text -/

/-- The place of the leading decimal digit of a positive quotient: the `k` with `10 ^ k ≤ num / den < 10 ^ (k + 1)`. -/
def leading (num den : Nat) : Int :=
  if den ≤ num then (Nat.toDigits 10 (num / den)).length - 1
  else
    -- a quotient below one whose inverse lies between 10 ^ k and 10 ^ (k + 1)
    let k := (Nat.toDigits 10 (den / num)).length - 1
    if num * Nat.pow 10 k = den then -k else -(k + 1)

/-- Whether `digit · 10 ^ place` reads back as the double: it lies between the middles of the gaps to the neighbouring
doubles, and may be such a middle if the mantissa is even. -/
def readsBack (mantissa : Nat) (exponent : Int) (digits : Nat) (place : Int) : Bool :=
  -- everything in quarters of the last binary place
  let (n, d) := if 0 ≤ place then (digits * Nat.pow 10 place.toNat, 1) else (digits, Nat.pow 10 (-place).toNat)
  let (n, d) := scale n d (2 - exponent)
  let below := if mantissa = Nat.pow 2 52 && exponent > -1074 then 1 else 2
  if mantissa % 2 = 0 then (4 * mantissa - below) * d ≤ n && n ≤ (4 * mantissa + 2) * d
  else (4 * mantissa - below) * d < n && n < (4 * mantissa + 2) * d

/-- The decimal with `count` digits that reads back and is nearest to the double, if there is one. -/
def withDigits? (mantissa : Nat) (exponent : Int) (count : Nat) : Option (Nat × Int) :=
  let (num, den) := ratio mantissa exponent
  let place := leading num den + 1 - count
  let (n, d) := if 0 ≤ place then (num, den * Nat.pow 10 place.toNat) else (num * Nat.pow 10 (-place).toNat, den)
  let low := n / d
  let nearest := roundDiv n d
  let other := if nearest = low then low + 1 else low
  if readsBack mantissa exponent nearest place then some (nearest, place)
  else if readsBack mantissa exponent other place then some (other, place)
  else none

/-- The shortest decimal that reads back as a positive double; with 17 digits there is always one. -/
def shortest (mantissa : Nat) (exponent : Int) : Nat × Int :=
  ((List.range 17).findSome? fun i => withDigits? mantissa exponent (i + 1)).getD (mantissa, 0)

/-- The decimal exponent as it is written: a sign and two digits at least. -/
def exponentText (k : Int) : String :=
  let digits := toString k.natAbs
  (if k < 0 then "-" else "+") ++ (if digits.length < 2 then "0" ++ digits else digits)

/-- Writes a decimal: positional from 10⁻⁴ to below 10¹⁶, with a digit after the point. -/
def decimalText (digits : Nat) (place : Int) : String :=
  let all := Nat.toDigits 10 digits
  let kept := (all.reverse.dropWhile (· = '0')).reverse
  let lead := place + all.length - 1
  if -4 ≤ lead && lead < 16 then
    if lead < 0 then "0." ++ String.ofList (List.replicate (-lead - 1).toNat '0' ++ kept)
    else
      let whole := (lead + 1).toNat
      let padded := kept ++ List.replicate (whole - kept.length) '0'
      let fraction := padded.drop whole
      String.ofList (padded.take whole) ++ "." ++ (if fraction.isEmpty then "0" else String.ofList fraction)
  else
    let tail := kept.drop 1
    String.ofList (kept.take 1) ++ (if tail.isEmpty then "" else "." ++ String.ofList tail) ++ "e" ++ exponentText lead

/-- The text of a double. -/
def text : Binary64 → String
  | .finite negative mantissa exponent =>
    (if negative then "-" else "") ++
      (if mantissa = 0 then "0.0"
      else
        let (digits, place) := shortest mantissa exponent
        decimalText digits place)
  | .infinite negative => if negative then "-inf" else "inf"
  | .nan => "nan"

end Binary64

end DirWatch
