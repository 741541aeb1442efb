import ProtoDecl.Number.Integer

/-!
# Double-precision numbers

Numbers with 53 binary digits, read exactly: a decimal text denotes the double nearest to its value,
and a value half way between two goes to the one with an even mantissa.

* `Double`, with `Double.bits`, its 64-bit pattern;
* `Double.ofRatio`, the double nearest to a quotient of natural numbers;
* `Double.ofScientific`, the double nearest to `m · 10 ^ e`;
* `Double.ofText?`, which reads a text.
-/

namespace ProtoDecl.Number

/-- A double-precision number.  `finite negative m q` is `± m · 2 ^ q`, where `m < 2 ^ 53`,
`q ≥ -1074`, and either `m ≥ 2 ^ 52` or `q = -1074`. -/
inductive Double where
  | nan
  | infinite (negative : Bool)
  | finite (negative : Bool) (mantissa : Nat) (exponent : Int)
deriving DecidableEq, Repr

namespace Double

/-- The sign bit. -/
def signBit (negative : Bool) : Nat :=
  if negative then 0x8000000000000000 else 0

/-- The leading bit of a mantissa with 53 digits, `2 ^ 52`. -/
def leadingBit : Nat :=
  0x10000000000000

/-- The 64-bit pattern of a double. -/
def bits : Double → Nat
  | nan => 0x7FF8000000000000
  | infinite negative => signBit negative + 0x7FF0000000000000
  | finite negative m q =>
    if m < leadingBit then signBit negative + m
    else signBit negative + (q + 1075).toNat * leadingBit + (m - leadingBit)

/-- The integer nearest to `num / den`; a half goes to the even neighbour. -/
def roundDiv (num den : Nat) : Nat :=
  let q := num / den
  let twice := 2 * (num % den)
  if twice < den || (twice == den && q % 2 == 0) then q else q + 1

/-- `num / (den · 2 ^ e)`, as a numerator and a denominator. -/
def scale (num den : Nat) (e : Int) : Nat × Nat :=
  (num * Nat.pow 2 (-e).toNat, den * Nat.pow 2 e.toNat)

/-- The exponent with which `num / den` has 53 binary digits before the point, or the least
exponent there is. -/
def exponentOf (num den : Nat) : Int :=
  let guess : Int := (Nat.log2 num : Int) - (Nat.log2 den : Int) - 52
  let scaled := scale num den guess
  let exact := if scaled.1 / scaled.2 < leadingBit then guess - 1 else guess
  max exact (-1074)

/-- The double nearest to `± num / den`. -/
def ofRatio (negative : Bool) (num den : Nat) : Double :=
  if num = 0 then finite negative 0 (-1074)
  else
    let e := exponentOf num den
    let scaled := scale num den e
    let m := roundDiv scaled.1 scaled.2
    let (m, e) := if m = 2 * leadingBit then (leadingBit, e + 1) else (m, e)
    if e > 971 then infinite negative else finite negative m e

/-- The double nearest to `± m · 10 ^ e`.  A number with its first digit beyond the 310th place is
too large for any double, and one below the 330th decimal is nearest to zero. -/
def ofScientific (negative : Bool) (m : Nat) (e : Int) : Double :=
  let places : Int := (Nat.toDigits 10 m).length + e
  if m = 0 || places < -330 then finite negative 0 (-1074)
  else if places > 310 then infinite negative
  else ofRatio negative (m * Nat.pow 10 e.toNat) (Nat.pow 10 (-e).toNat)

/-! ## Text -/

/-- A decimal with an optional fraction and an optional exponent, as `m · 10 ^ e`.  At least one
digit must stand before or after the point. -/
def scientific? (text : List Char) : Option (Nat × Int) :=
  let whole := text.takeWhile Char.isDigit
  let rest := text.dropWhile Char.isDigit
  let (fraction, rest) := match rest with
    | '.' :: rest => (rest.takeWhile Char.isDigit, rest.dropWhile Char.isDigit)
    | rest => ([], rest)
  let exponent? : Option Int := match rest with
    | [] => some 0
    | mark :: rest =>
      if mark.toLower = 'e' then
        let (negative, digits) := splitSign rest
        (natural? digits).map fun n => if negative then -(n : Int) else n
      else none
  if whole.isEmpty && fraction.isEmpty then none
  else exponent?.map fun e => (ofDigits (whole ++ fraction), e - fraction.length)

/-- The double that a text denotes: an optional sign, then a decimal or, in any letter case, one of
the words for infinity or for no number. -/
def ofText? (text : List Char) : Option Double :=
  let (negative, rest) := splitSign text
  let word := String.ofList (rest.map Char.toLower)
  if word = "inf" || word = "infinity" then some (infinite negative)
  else if word = "nan" then some nan
  else (scientific? rest).map fun (m, e) => ofScientific negative m e

end Double

end ProtoDecl.Number
