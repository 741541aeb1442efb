import ProtoDecl.Number.Double

/-!
# Shortest decimal text of a double

The text of a double is the decimal with the fewest digits that reads back as the same double, and
of those the nearest to it.

* `readsBack`, which decimals round to a given double;
* `shortest`, the coarsest decimal grid that has such a point, and the point;
* `layout`, the positional or the exponent form.
-/

namespace ProtoDecl.Number

namespace Shortest

/-- `k · 2 ^ q` and `d · 10 ^ x`, both times a common factor that makes them whole. -/
def common (k : Nat) (q : Int) (d : Nat) (x : Int) : Nat × Nat :=
  (k * Nat.pow 2 q.toNat * Nat.pow 10 (-x).toNat, d * Nat.pow 10 x.toNat * Nat.pow 2 (-q).toNat)

/-- Whether `d · 10 ^ x` rounds to the double `m · 2 ^ q`.  It has to lie in the interval that
reaches half way to the neighbours; the end points belong to it when `m` is even.  Below a power of
two the neighbour is only half as far. -/
def readsBack (m : Nat) (q : Int) (d : Nat) (x : Int) : Bool :=
  let below := if m == Double.leadingBit && q > -1074 then 1 else 2
  let (low, point) := common (4 * m - below) (q - 2) d x
  let (high, _) := common (4 * m + 2) (q - 2) d x
  if m % 2 == 0 then low ≤ point && point ≤ high else low < point && point < high

/-- The point of the grid of multiples of `10 ^ x` that reads back as `m · 2 ^ q`, if there is one;
of two the nearer, and of two equally near the even one. -/
def onGrid? (m : Nat) (q : Int) (x : Int) : Option Nat :=
  let (value, unit) := common m q 1 x
  let d := value / unit
  let twice := 2 * (value % unit)
  let lower := readsBack m q d x
  let upper := readsBack m q (d + 1) x
  if lower && upper then
    some (if twice < unit || (twice == unit && d % 2 == 0) then d else d + 1)
  else if lower then some d
  else if upper then some (d + 1)
  else none

/-- The exponents of the grids, from the coarsest that can matter to the finest. -/
def grids : List Int :=
  (List.range 660).map fun (i : Nat) => 310 - (i : Int)

/-- The digits and the exponent of the shortest decimal that reads back as `m · 2 ^ q`. -/
def shortest (m : Nat) (q : Int) : Nat × Int :=
  (grids.findSome? fun x => (onGrid? m q x).map fun d => (d, x)).getD (m, q)

/-- Lays out `d · 10 ^ x`.  Numbers whose first digit stands between the fifth decimal and the
sixteenth place are written positionally, with at least one decimal; others with an exponent. -/
def layout (d : Nat) (x : Int) : List Char :=
  let digits := Nat.toDigits 10 d
  let first : Int := digits.length - 1 + x
  if -5 ≤ first && first < 16 then
    if 0 ≤ x then digits ++ List.replicate x.toNat '0' ++ ['.', '0']
    else if 0 ≤ first then
      digits.take (first.toNat + 1) ++ ['.'] ++ digits.drop (first.toNat + 1)
    else ['0', '.'] ++ List.replicate (-first - 1).toNat '0' ++ digits
  else
    let point := if digits.length ≤ 1 then [] else ['.']
    digits.take 1 ++ point ++ digits.drop 1 ++ ['e'] ++ (toString first).toList

end Shortest

/-- The shortest text of a finite double; the others have none. -/
def Double.text? : Double → Option String
  | nan => none
  | infinite _ => none
  | finite negative m q =>
    let (d, x) := if m = 0 then (0, 0) else Shortest.shortest m q
    some (String.ofList ((if negative then ['-'] else []) ++ Shortest.layout d x))

end ProtoDecl.Number
